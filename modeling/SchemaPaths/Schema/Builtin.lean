/-
The types that need no declaration.

Each simple one has a code, under which an export reports it and every type restricted from it.
-/
import SchemaPaths.Schema.QName

namespace SchemaPaths
namespace Schema

structure Builtin where
  name : String
  code : String
  base : Option String
deriving DecidableEq, Repr

namespace Builtin

def all : List Builtin := [
  ⟨"anySimpleType", "AnyAtomicType", none⟩,
  ⟨"string", "String", some "anySimpleType"⟩,
  ⟨"boolean", "Boolean", some "anySimpleType"⟩,
  ⟨"decimal", "Decimal", some "anySimpleType"⟩,
  ⟨"float", "Float", some "anySimpleType"⟩,
  ⟨"double", "Double", some "anySimpleType"⟩,
  ⟨"duration", "Duration", some "anySimpleType"⟩,
  ⟨"dateTime", "DateTime", some "anySimpleType"⟩,
  ⟨"time", "Time", some "anySimpleType"⟩,
  ⟨"date", "Date", some "anySimpleType"⟩,
  ⟨"gYearMonth", "GYearMonth", some "anySimpleType"⟩,
  ⟨"gYear", "GYear", some "anySimpleType"⟩,
  ⟨"gMonthDay", "GMonthDay", some "anySimpleType"⟩,
  ⟨"gDay", "GDay", some "anySimpleType"⟩,
  ⟨"gMonth", "GMonth", some "anySimpleType"⟩,
  ⟨"hexBinary", "HexBinary", some "anySimpleType"⟩,
  ⟨"base64Binary", "Base64Binary", some "anySimpleType"⟩,
  ⟨"anyURI", "AnyUri", some "anySimpleType"⟩,
  ⟨"QName", "QName", some "anySimpleType"⟩,
  ⟨"NOTATION", "Notation", some "anySimpleType"⟩,
  ⟨"normalizedString", "NormalizedString", some "string"⟩,
  ⟨"token", "Token", some "normalizedString"⟩,
  ⟨"language", "Language", some "token"⟩,
  ⟨"NMTOKEN", "NmToken", some "token"⟩,
  ⟨"NMTOKENS", "NmToken", some "anySimpleType"⟩,
  ⟨"Name", "Name", some "token"⟩,
  ⟨"NCName", "NCName", some "Name"⟩,
  ⟨"ID", "Id", some "NCName"⟩,
  ⟨"IDREF", "Idref", some "NCName"⟩,
  ⟨"IDREFS", "Idref", some "anySimpleType"⟩,
  ⟨"ENTITY", "Entity", some "NCName"⟩,
  ⟨"ENTITIES", "Entity", some "anySimpleType"⟩,
  ⟨"integer", "Integer", some "decimal"⟩,
  ⟨"nonPositiveInteger", "NonPositiveInteger", some "integer"⟩,
  ⟨"negativeInteger", "NegativeInteger", some "nonPositiveInteger"⟩,
  ⟨"long", "Long", some "integer"⟩,
  ⟨"int", "Int", some "long"⟩,
  ⟨"short", "Short", some "int"⟩,
  ⟨"byte", "Byte", some "short"⟩,
  ⟨"nonNegativeInteger", "NonNegativeInteger", some "integer"⟩,
  ⟨"unsignedLong", "UnsignedLong", some "nonNegativeInteger"⟩,
  ⟨"unsignedInt", "UnsignedInt", some "unsignedLong"⟩,
  ⟨"unsignedShort", "UnsignedShort", some "unsignedInt"⟩,
  ⟨"unsignedByte", "UnsignedByte", some "unsignedShort"⟩,
  ⟨"positiveInteger", "PositiveInteger", some "nonNegativeInteger"⟩]

def find? (name : String) : Option Builtin := all.find? fun b => b.name == name

def anySimple : Builtin := ⟨"anySimpleType", "AnyAtomicType", none⟩

/-- The type that every type derives from, which is complex and no member of the list. -/
def anyTypeName : String := "anyType"

def anyTypeCode : String := "Item"

/-- Whether a value is a list of words. -/
def isList (b : Builtin) : Bool := ["NMTOKENS", "IDREFS", "ENTITIES"].contains b.name

def qname (b : Builtin) : QName := ⟨xsSpace, some b.name⟩

end Builtin
end Schema
end SchemaPaths
