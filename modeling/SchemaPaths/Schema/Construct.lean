/-
The elements of the schema language that mean something here.  All others are passed over, with
everything inside them.
-/
import SchemaPaths.Markup.Tree
import SchemaPaths.Schema.QName

namespace SchemaPaths
namespace Schema

inductive Construct where
  | schema
  | includes
  | imports
  | redefines
  | element
  | complexType
  | simpleType
  | group
  | attr
  | attrGroup
  | notes
  | documentation
  | appinfo
  | sequence
  | choice
  | all
  | any
  | complexContent
  | simpleContent
  | extension
  | restriction
  | list
  | union
deriving DecidableEq, Repr

namespace Construct

def ofWord? (word : String) : Option Construct :=
  if word == "schema" then some .schema
  else if word == "include" then some .includes
  else if word == "import" then some .imports
  else if word == "redefine" then some .redefines
  else if word == "element" then some .element
  else if word == "complexType" then some .complexType
  else if word == "simpleType" then some .simpleType
  else if word == "group" then some .group
  else if word == "attribute" then some .attr
  else if word == "attributeGroup" then some .attrGroup
  else if word == "annotation" then some .notes
  else if word == "documentation" then some .documentation
  else if word == "appinfo" then some .appinfo
  else if word == "sequence" then some .sequence
  else if word == "choice" then some .choice
  else if word == "all" then some .all
  else if word == "any" then some .any
  else if word == "complexContent" then some .complexContent
  else if word == "simpleContent" then some .simpleContent
  else if word == "extension" then some .extension
  else if word == "restriction" then some .restriction
  else if word == "list" then some .list
  else if word == "union" then some .union
  else none

def ofName? (n : Markup.Name) : Option Construct :=
  if n.space == xsSpace then ofWord? n.localPart else none

end Construct
end Schema
end SchemaPaths
