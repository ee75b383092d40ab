/-
Why a document could not be read.
-/
namespace SchemaPaths
namespace Markup

/-- Why the encoding that a document names is of no use: nobody knows it, it spends several bytes on
a character, it is a name for no encoding of documents, or it has nothing for bytes beyond ASCII. -/
inductive EncodingFault where
  | unknown
  | wide
  | reserved
  | narrow
deriving DecidableEq, Repr

/-- A document is malformed, or it declares an entity of its own, or its encoding is of no use. -/
inductive Fault where
  | malformed
  | entityDeclared
  | encoding (f : EncodingFault)
deriving DecidableEq, Repr

end Markup
end SchemaPaths
