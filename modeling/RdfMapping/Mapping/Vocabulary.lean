/-!
The names of the mapping vocabularies that rules may use: R2RML and RML.

Both have the same three term types and a name for the default graph.
-/

namespace RdfMapping

def r2rml : String := "http://www.w3.org/ns/r2rml#"

def rml : String := "http://w3id.org/rml/"

/-- The kind of term that a term map makes. -/
inductive TermType where
  | iri
  | blankNode
  | literal
deriving DecidableEq, Repr

namespace TermType

def localName : TermType → String
  | iri => "IRI"
  | blankNode => "BlankNode"
  | literal => "Literal"

/-- The term type that an IRI of either namespace names. -/
def ofIri? (text : String) : Option TermType :=
  [iri, blankNode, literal].find? fun t =>
    text == r2rml ++ t.localName || text == rml ++ t.localName

def label : TermType → String
  | iri => "Iri"
  | blankNode => "BlankNode"
  | literal => "Literal"

end TermType

/-- Whether an IRI names the default graph, in either namespace. -/
def isDefaultGraph (text : String) : Bool :=
  text == r2rml ++ "defaultGraph" || text == rml ++ "defaultGraph"

end RdfMapping
