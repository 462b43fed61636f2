import RdfMapping.Proofs.Statement.RowMeaning

/-!
Terms and lines as they are written.

The parts of a value are pushed behind one another, the terms of a template are made with one buffer that
goes from row to row, and a column of terms has to have room (`maxRepeats`). None of this shows: where
there is room for a term of each row, what is written is what `render` says (`TermMap.write_eq`,
`StatementMap.write_eq`). In particular it makes no difference what a row has left in the buffer
(`TermKind.writeRows_eq`).
-/

namespace RdfMapping

/-! ## Pushing -/

namespace Literal

def pushChar (out : String) : Char → String
  | '\\' => out ++ "\\\\"
  | '"' => out ++ "\\\""
  | '\n' => out ++ "\\n"
  | '\r' => out ++ "\\r"
  | c => out.push c

def pushSuffix (out : String) : Option String → Option String → String
  | some tag, _ => out.push '@' ++ tag
  | none, some iri => (out ++ "^^<" ++ iri).push '>'
  | none, none => out

def push (language datatype : Option String) (out lexical : String) : String :=
  (pushSuffix ((lexical.toList.foldl pushChar (out.push '"')).push '"') language datatype).push ' '

theorem pushChar_eq (out : String) (c : Char) : pushChar out c = out ++ String.ofList (escapeChar c) := by
  apply String.toList_inj.mp
  unfold pushChar escapeChar
  split <;> simp_all

theorem foldl_pushChar_eq (out : String) (l : List Char) :
    l.foldl pushChar out = out ++ String.ofList (l.flatMap escapeChar) := by
  induction l generalizing out with
  | nil => simp
  | cons c rest ih =>
    rw [List.foldl_cons, ih, pushChar_eq, List.flatMap_cons, String.ofList_append, String.append_assoc]

theorem push_eq (language datatype : Option String) (out lexical : String) :
    push language datatype out lexical = out ++ (render language datatype lexical ++ " ") := by
  have suffixed : ∀ s, pushSuffix s language datatype = s ++ suffix language datatype := by
    intro s
    apply String.toList_inj.mp
    cases language <;> cases datatype <;> simp [pushSuffix, suffix]
  apply String.toList_inj.mp
  simp [push, suffixed, foldl_pushChar_eq, render, escape]

end Literal

def Part.pushAll (encode : String → String) (row : Nat) : List Part → String → Except MappingError String
  | [], out => .ok out
  | .text s :: rest, out => pushAll encode row rest (out ++ s)
  | .cells name column :: rest, out =>
    match cellText name column row with
    | .ok s => pushAll encode row rest (out ++ encode s)
    | .error error => .error error

theorem Part.pushAll_eq (encode : String → String) (row : Nat) (parts : List Part) (out : String) :
    pushAll encode row parts out = (renderValue encode parts row).map (out ++ ·) := by
  induction parts generalizing out with
  | nil => simp [pushAll, renderValue, Except.map, pure, Except.pure]
  | cons part rest ih =>
    -- what the part gives is pushed, and then the rest behind it
    have pushed : ∀ s, part.render encode row = .ok s →
        (renderValue encode (part :: rest) row).map (out ++ ·) = pushAll encode row rest (out ++ s) := by
      intro s given
      rw [ih, renderValue, renderValue, List.mapM_cons, given]
      cases rest.mapM (render encode row) with
      | error e => rfl
      | ok texts =>
        show Except.ok (out ++ String.join (s :: texts)) = .ok (out ++ s ++ String.join texts)
        rw [String.join_cons, String.append_assoc]
    cases part with
    | text s => rw [pushAll, pushed s rfl]
    | cells name column =>
      rw [pushAll]
      cases found : cellText name column row with
      | ok s => exact (pushed _ (by rw [render, found]; rfl)).symm
      | error e =>
        rw [renderValue, List.mapM_cons, render, found]
        rfl

/-! ## The terms of a batch -/

/-- What a buffer holds once it is cleared. -/
def cleared (_buffer : String) : String := ""

namespace TermKind

/-- Writes the term of a row of a template. The lexical form of a literal is put together in a buffer,
which is handed on to the next row. -/
def writeRow (kind : TermKind) (parts : List Part) (row : Nat) (lexical : String) :
    Except MappingError (String × String) :=
  match kind with
  | .iri =>
    (Part.pushAll (Percent.encode Percent.isUnreserved) row parts "<").map fun term =>
      (term ++ "> ", lexical)
  | .literal language datatype =>
    (Part.pushAll id row parts (cleared lexical)).map fun lexical =>
      (Literal.push language datatype "" lexical, lexical)

def writeRows (kind : TermKind) (parts : List Part) :
    List Nat → String → List String → Except MappingError (List String)
  | [], _, terms => .ok terms
  | row :: rest, lexical, terms =>
    match kind.writeRow parts row lexical with
    | .ok (term, lexical) => writeRows kind parts rest lexical (terms ++ [term])
    | .error error => .error error

def writeCell (kind : TermKind) (name : String) (column : Column) (row : Nat) :
    Except MappingError String :=
  (cellText name column row).map fun value =>
    match kind with
    | .iri => "<" ++ Percent.encode Percent.isUnreservedOrPath value ++ "> "
    | .literal language datatype => Literal.push language datatype "" value

variable {kind : TermKind} {parts : List Part} {row : Nat}

/-- The term of a row does not depend on what the row before has left in the buffer. -/
theorem writeRow_eq (t : Template) (lexical : String) :
    (kind.writeRow parts row lexical).map Prod.fst =
      renderRow kind (kind.cellEncoding (.template t)) parts row := by
  cases kind with
  | iri =>
    rw [writeRow, Part.pushAll_eq, renderRow, cellEncoding]
    · cases renderValue (Percent.encode Percent.isUnreserved) parts row <;> rfl
    · simp
  | literal language datatype =>
    rw [writeRow, Part.pushAll_eq, renderRow, cellEncoding]
    cases renderValue id parts row with
    | error e => rfl
    | ok value =>
      simp only [Except.map, cleared, Literal.push_eq, String.empty_append]
      rfl

theorem writeRows_eq (t : Template) (rows : List Nat) (lexical : String) (terms : List String) :
    kind.writeRows parts rows lexical terms =
      (rows.mapM (renderRow kind (kind.cellEncoding (.template t)) parts)).map (terms ++ ·) := by
  induction rows generalizing lexical terms with
  | nil => simp [writeRows, Except.map, pure, Except.pure]
  | cons row rest ih =>
    rw [writeRows, List.mapM_cons, ← writeRow_eq t lexical]
    cases kind.writeRow parts row lexical with
    | error e => rfl
    | ok written =>
      obtain ⟨term, left⟩ := written
      show writeRows kind parts rest left (terms ++ [term]) = _
      rw [ih]
      cases rest.mapM (renderRow kind (kind.cellEncoding (.template t)) parts) with
      | error e => rfl
      | ok others => simp [Except.map, bind, Except.bind, pure, Except.pure]

theorem writeCell_eq (reference name : String) (column : Column) (row : Nat) :
    kind.writeCell name column row =
      renderRow kind (kind.cellEncoding (.column reference)) [.cells name column] row := by
  have whole : ∀ encode, renderValue encode [.cells name column] row =
      (cellText name column row).map encode := by
    intro encode
    rw [renderValue, List.mapM_cons, Part.render]
    cases cellText name column row with
    | error e => rfl
    | ok value => simp [Except.map, bind, Except.bind, pure, Except.pure]
  rw [writeCell, renderRow, whole]
  cases cellText name column row with
  | error e => rfl
  | ok value =>
    cases kind with
    | iri => rfl
    | literal language datatype => simp only [Except.map, Literal.push_eq, String.empty_append]; rfl

end TermKind

/-- What is written, unless there is an error, or no room for it. -/
abbrev Written (α : Type) := Option (Except MappingError α)

def Written.andThen {α β : Type} (first : Written α) (second : α → Written β) : Written β :=
  match first with
  | some (.ok a) => second a
  | some (.error error) => some (.error error)
  | none => none

/-- Writes the terms of a batch. Those of a template and those of a constant need room for all of them
before the first is written. -/
def TermMap.write (m : TermMap) (b : Batch) (role : Role) : Written (List String) :=
  match m.kind with
  | .error error => some (.error error)
  | .ok kind =>
    match m.value with
    | .template t =>
      match t.segments.mapM (Part.ofSegment b role) with
      | .error error => some (.error error)
      | .ok parts =>
        if b.numRows ≤ maxRepeats then some (kind.writeRows parts (List.range b.numRows) "" []) else none
    | .column name =>
      some ((b.columnFor role name).mapError .ofTableError >>= fun column =>
        (List.range b.numRows).mapM (kind.writeCell (role.qualify name) column))
    | .constant text => (kind.column? text b.numRows).map .ok

theorem TermMap.write_eq (m : TermMap) {b : Batch} (room : b.numRows ≤ maxRepeats) (role : Role) :
    m.write b role = some (m.render b role) := by
  unfold write render
  cases m.kind with
  | error e => rfl
  | ok kind =>
    dsimp only
    cases hv : m.value with
    | template t =>
      simp only [TermValue.parts]
      cases t.segments.mapM (Part.ofSegment b role) with
      | error e => rfl
      | ok parts =>
        simp only [if_pos room, TermKind.writeRows_eq t, List.nil_append]
        cases h : (List.range b.numRows).mapM (renderRow kind (kind.cellEncoding (.template t)) parts) <;>
          exact congrArg some h.symm
    | column name =>
      simp only [TermValue.parts, Part.ofColumn]
      cases b.columnFor role name with
      | error e => rfl
      | ok column => exact congrArg some (mapM_congr fun row _ => TermKind.writeCell_eq name _ column row)
    | constant text =>
      have each : renderRow kind (kind.cellEncoding (.constant text)) [.text text] =
          fun _ => pure (kind.wrap text) := by
        funext row
        simp [renderRow, renderValue, Part.render, Except.map, bind, Except.bind, pure, Except.pure]
      simp only [TermKind.column?, if_pos room, TermValue.parts]
      show some (.ok _) = some ((List.range b.numRows).mapM
        (renderRow kind (kind.cellEncoding (.constant text)) [.text text]))
      rw [each, List.mapM_pure, List.map_const', List.length_range]
      rfl

theorem TermMap.length_render {m : TermMap} {b : Batch} {role : Role} {terms : List String}
    (h : m.render b role = .ok terms) : terms.length = b.numRows := by
  obtain ⟨kind, -, rest⟩ := bind_eq_ok_iff.mp h
  obtain ⟨parts, -, made⟩ := bind_eq_ok_iff.mp rest
  rw [← toOption_eq_some_iff, toOption_mapM] at made
  simpa using length_of_mapM made

/-! ## The lines of a batch -/

namespace StatementMap

/-- Pushes the other terms of each row behind the subject of the row, and a full stop. The terms are asked
for by their row, which has to be there. -/
def pushLines (predicates objects : List String) (graphs : Option (List String)) :
    Nat → List String → Option (List String)
  | _, [] => some []
  | row, line :: rest => do
    let predicate ← predicates[row]?
    let object ← objects[row]?
    let graph ← graphs.elim (some "") (·[row]?)
    let others ← pushLines predicates objects graphs (row + 1) rest
    some ((line ++ predicate ++ object ++ graph).push '.' :: others)

def writeGraph (m : StatementMap) (b : Batch) (role : Role) : Written (Option (List String)) :=
  match m.namedGraph with
  | some g => (g.write b role).andThen fun terms => some (.ok (some terms))
  | none => some (.ok none)

def write (m : StatementMap) (b : Batch) (roles : TermRoles) : Written (List String) :=
  (m.subject.write b roles.subject).andThen fun lines =>
    (m.predicate.write b roles.predicate).andThen fun predicates =>
      (m.object.write b roles.object).andThen fun objects =>
        (m.writeGraph b roles.graph).andThen fun graphs =>
          (pushLines predicates objects graphs 0 lines).map .ok

section Lines

variable {predicates objects terms : List String} {graphs : Option (List String)}

theorem pushLines_eq {row : Nat} {lines : List String} (hp : row + lines.length ≤ predicates.length)
    (ho : row + lines.length ≤ objects.length) (hg : row + lines.length ≤ terms.length)
    (shown : ∀ i < row + lines.length, (graphs.elim (some "") (·[i]?)) = terms[i]?) :
    pushLines predicates objects graphs row lines =
      some (joinTerms lines (predicates.drop row) (objects.drop row) (terms.drop row)) := by
  induction lines generalizing row with
  | nil => rfl
  | cons line rest ih =>
    rw [List.length_cons] at hp ho hg shown
    have others := @ih (row + 1) (by omega) (by omega) (by omega) fun i hi => shown i (by omega)
    have predicate : row < predicates.length := by omega
    have object : row < objects.length := by omega
    have graph : row < terms.length := by omega
    rw [pushLines, List.getElem?_eq_getElem predicate, List.getElem?_eq_getElem object,
      shown row (by omega), List.getElem?_eq_getElem graph, others,
      List.drop_eq_getElem_cons predicate, List.drop_eq_getElem_cons object,
      List.drop_eq_getElem_cons graph]
    have stop : ∀ s : String, s.push '.' = s ++ "." := fun s => String.toList_inj.mp (by simp)
    simp only [joinTerms, List.zipWith_cons_cons, List.map_cons, stop, Option.bind_eq_bind,
      Option.bind_some]

end Lines

theorem writeGraph_eq (m : StatementMap) {b : Batch} (room : b.numRows ≤ maxRepeats) (role : Role) :
    (∃ e, m.renderGraph b role = .error e ∧ m.writeGraph b role = some (.error e)) ∨
      ∃ terms graphs, m.renderGraph b role = .ok terms ∧ m.writeGraph b role = some (.ok graphs) ∧
        terms.length = b.numRows ∧ ∀ i < b.numRows, graphs.elim (some "") (·[i]?) = terms[i]? := by
  unfold renderGraph writeGraph
  cases m.namedGraph with
  | none =>
    refine .inr ⟨_, none, rfl, rfl, List.length_replicate, fun i hi => ?_⟩
    rw [List.getElem?_replicate, if_pos hi]
    rfl
  | some g =>
    simp only [g.write_eq room]
    cases made : g.render b role with
    | error e => exact .inl ⟨e, rfl, rfl⟩
    | ok terms => exact .inr ⟨terms, some terms, rfl, rfl, TermMap.length_render made, fun _ _ => rfl⟩

theorem write_eq (m : StatementMap) {b : Batch} (room : b.numRows ≤ maxRepeats) (roles : TermRoles) :
    m.write b roles = some (m.render b roles) := by
  unfold write render
  simp only [TermMap.write_eq _ room]
  cases hs : m.subject.render b roles.subject with
  | error e => rfl
  | ok lines =>
    cases hp : m.predicate.render b roles.predicate with
    | error e => rfl
    | ok predicates =>
      cases ho : m.object.render b roles.object with
      | error e => rfl
      | ok objects =>
        have rows := TermMap.length_render hs
        have rows' := TermMap.length_render hp
        have rows'' := TermMap.length_render ho
        rcases m.writeGraph_eq room roles.graph with
          ⟨e, rendered, written⟩ | ⟨terms, graphs, rendered, written, long, shown⟩
        · rw [rendered]
          simp only [Written.andThen, written]
          rfl
        · have pushed : pushLines predicates objects graphs 0 lines =
              some (joinTerms lines predicates objects terms) :=
            pushLines_eq (by omega) (by omega) (by omega) fun i hi => shown i (by omega)
          rw [rendered]
          simp only [Written.andThen, written, pushed]
          rfl

end StatementMap

end RdfMapping
