import RdfMapping.Mapping.Template
import RdfMapping.Mapping.Vocabulary
import RdfMapping.Text.Blank

/-!
Term maps: how a term of a statement is made from a row.

A term map has one source of its value, a term type and, for literals, a language or a datatype. A
record states these as optional texts; `TermMapRecord.compile` checks it for the position of the term
in the statement.
-/

namespace RdfMapping

/-- The place of a term in a statement. -/
inductive TermPosition where
  | subject
  | predicate
  | object
  | graph
deriving DecidableEq, Repr

def TermPosition.label : TermPosition → String
  | subject => "Subject"
  | predicate => "Predicate"
  | object => "Object"
  | graph => "Graph"

/-- The term types that may stand at a position. -/
def TermPosition.allows : TermPosition → TermType → Bool
  | subject, t => t != .literal
  | predicate, t => t == .iri
  | object, _ => true
  | graph, t => t == .iri

/-- Where the value of a term comes from. -/
inductive TermValue where
  | template (t : Template)
  | column (name : String)
  | constant (text : String)
deriving DecidableEq, Repr

structure TermMap where
  value : TermValue
  termType : TermType
  language : Option String
  datatype : Option String
deriving DecidableEq, Repr

inductive TermMapFault where
  | template (pattern : String) (fault : TemplateFault)
  | languageAndDatatype
  | unknownTermType (iri : String)
  | termTypeNotAllowed (termType : TermType) (position : TermPosition)
  | noValue (position : TermPosition)
  | manyValues (position : TermPosition)
deriving DecidableEq, Repr

def TermMapFault.message : TermMapFault → String
  | template pattern fault => fault.message pattern
  | languageAndDatatype => "term map cannot have both a language tag and a datatype"
  | unknownTermType iri => "unknown term type: " ++ iri
  | termTypeNotAllowed termType position =>
    termType.label ++ " term type is not allowed in " ++ position.label ++ " position"
  | noValue position =>
    position.label ++ " term map has none of template, reference or constant"
  | manyValues position =>
    position.label ++ " term map has more than one of template, reference or constant"

namespace TermMap

def plain (value : TermValue) (termType : TermType) : TermMap := ⟨value, termType, none, none⟩

/-- The constant IRI, the usual predicate. -/
def iri (text : String) : TermMap := plain (.constant text) .iri

/-- A term map, unless it has both a language and a datatype. -/
def make (value : TermValue) (termType : TermType) (language datatype : Option String) :
    Except TermMapFault TermMap :=
  if language.isSome ∧ datatype.isSome then .error .languageAndDatatype
  else .ok ⟨value, termType, language, datatype⟩

def withLanguage (m : TermMap) (language : String) : Except TermMapFault TermMap :=
  make m.value m.termType (some language) m.datatype

def withDatatype (m : TermMap) (datatype : String) : Except TermMapFault TermMap :=
  make m.value m.termType m.language (some datatype)

/-- The columns that a term map reads, each once, in order of first occurrence. -/
def columns (m : TermMap) : List String :=
  match m.value with
  | .template t => t.columns
  | .column name => [name]
  | .constant _ => []

/-- Whether this is a constant that names the default graph. -/
def isDefaultGraph (m : TermMap) : Bool :=
  match m.value with
  | .constant text => RdfMapping.isDefaultGraph text
  | _ => false

end TermMap

def TermValue.ofTemplate (pattern : String) : Except TermMapFault TermValue :=
  match Template.parse pattern with
  | .ok t => .ok (.template t)
  | .error fault => .error (.template pattern fault)

/-- A term map as a rule file states it. -/
structure TermMapRecord where
  template : Option String := none
  reference : Option String := none
  constant : Option String := none
  termType : Option String := none
  language : Option String := none
  datatype : Option String := none
deriving DecidableEq, Repr

namespace TermMapRecord

def isEmpty (r : TermMapRecord) : Bool :=
  r.template.isNone && r.reference.isNone && r.constant.isNone

/-- An object that reads a column or has a language or a datatype is a literal, any other term an
IRI, unless the record says otherwise. -/
def defaultTermType (r : TermMapRecord) (position : TermPosition) : TermType :=
  if position = .object ∧ (r.reference.isSome ∨ r.language.isSome ∨ r.datatype.isSome) then .literal
  else .iri

def statedTermType (r : TermMapRecord) (position : TermPosition) : Except TermMapFault TermType :=
  match r.termType with
  | some text =>
    match TermType.ofIri? (trim text) with
    | some t => .ok t
    | none => .error (.unknownTermType text)
  | none => .ok (r.defaultTermType position)

def value (r : TermMapRecord) (position : TermPosition) : Except TermMapFault TermValue :=
  match r.template, r.reference, r.constant with
  | some pattern, none, none => TermValue.ofTemplate pattern
  | none, some name, none => .ok (.column name)
  | none, none, some text => .ok (.constant text)
  | none, none, none => .error (.noValue position)
  | _, _, _ => .error (.manyValues position)

def compile (r : TermMapRecord) (position : TermPosition) : Except TermMapFault TermMap := do
  let termType ← r.statedTermType position
  if position.allows termType then
    let value ← r.value position
    TermMap.make value termType r.language r.datatype
  else .error (.termTypeNotAllowed termType position)

end TermMapRecord

end RdfMapping
