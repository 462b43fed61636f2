import RdfMapping.Proofs.Statement.RowMeaning
import RdfMapping.Proofs.Table.ChunkedRows
import RdfMapping.Run.RuleRun

/-!
Rendering a batch chunk by chunk.

The chunks of a batch are its rows in order (`flatMap_piece`), and none of them is empty. A batch that
has a row is rendered without regard to whether its maps fit (`toOption_render_of_pos`): if they do
not, its first row gives no line. So the size of the chunks does not show in the lines, nor in
whether there are any (`drain_chunks`); it shows in the number of batches alone.
-/

namespace RdfMapping

/-! ## Rendering -/

namespace StatementMap

/-- A batch with a row is rendered row by row, whether its maps fit or not. -/
theorem toOption_render_of_pos {m : StatementMap} {b : Batch} {roles : TermRoles}
    (h : 0 < b.numRows) :
    (m.render b roles).toOption = (List.range b.numRows).mapM (m.lineAt? b roles) := by
  by_cases fits : m.Fits b roles
  · exact toOption_render fits
  · have left : (m.render b roles).toOption = none := by
      cases hr : m.render b roles with
      | error e => rfl
      | ok lines => exact absurd (fits_of_render hr) fits
    have right : (List.range b.numRows).mapM (m.lineAt? b roles) = none := by
      rw [← Option.not_isSome_iff_eq_none, isSome_mapM_iff]
      intro all
      exact fits (fits_of_lineAt? (all 0 (List.mem_range.mpr h)))
    rw [left, right]

theorem lineAt?_slice (m : StatementMap) (b : Batch) (roles : TermRoles) {offset length row : Nat}
    (h : row < length) : m.lineAt? (b.slice offset length) roles row =
      m.lineAt? b roles (offset + row) := by
  simp only [lineAt?, b.rowAs_slice _ h]

theorem flatten_render_chunks (m : StatementMap) (b : Batch) (roles : TermRoles) (size : Nat) :
    ((b.chunks size).mapM fun c => (m.render c roles).toOption).map List.flatten =
      (List.range b.numRows).mapM (m.lineAt? b roles) := by
  have pos := chunkStep_pos size
  generalize hstep : Batch.chunkStep size = step at pos
  have chunk : ∀ k ∈ List.range (Batch.chunkCount b.numRows step),
      (m.render (b.slice (k * step) step) roles).toOption =
        (piece b.numRows step k).mapM (m.lineAt? b roles) := by
    intro k hk
    -- there is a row in each chunk, so it does not matter whether the maps fit
    have start := mul_lt_of_lt_chunkCount pos (List.mem_range.mp hk)
    have rows : (b.slice (k * step) step).numRows = min step (b.numRows - k * step) := rfl
    rw [toOption_render_of_pos (by rw [rows]; omega), piece, List.mapM_map, rows]
    apply mapM_congr
    intro row hrow
    have := List.mem_range.mp hrow
    exact lineAt?_slice m b roles (by omega)
  calc _ = ((List.range (Batch.chunkCount b.numRows step)).mapM fun k =>
        (m.render (b.slice (k * step) step) roles).toOption).map List.flatten := by
        rw [Batch.chunks, List.mapM_map, hstep]
        rfl
    _ = ((List.range (Batch.chunkCount b.numRows step)).mapM fun k =>
        (piece b.numRows step k).mapM (m.lineAt? b roles)).map List.flatten := by
        rw [mapM_congr chunk]
    _ = ((List.range (Batch.chunkCount b.numRows step)).flatMap (piece b.numRows step)).mapM
        (m.lineAt? b roles) := by
        rw [mapM_flatMap]
    _ = (List.range b.numRows).mapM (m.lineAt? b roles) := by
        rw [flatMap_piece pos]

end StatementMap

/-! ## Draining -/

namespace RuleOutput

/-- What a rule gives when its lines come in batches of at most `size` rows. -/
def ofLines (size : Nat) (lines : List String) : RuleOutput :=
  ⟨TextSet.ofList lines, lines.length ⌈/⌉ size, lines.length⟩

end RuleOutput

theorem toOption_drain (render : Renderer) (batches : List Batch) (out : RuleOutput) :
    (drain render none batches out).toOption =
      (batches.mapM fun b => (render b).toOption).map fun lists =>
        ⟨out.lines ∪ TextSet.ofList lists.flatten, out.batches + batches.length,
          out.rows + (batches.map (·.numRows)).sum⟩ := by
  induction batches generalizing out with
  | nil => simp [drain]
  | cons b rest ih =>
    rw [drain, List.mapM_cons]
    cases hb : render b with
    | error e => rfl
    | ok lines =>
      simp only [ih, toOption_ok]
      cases rest.mapM fun b => (render b).toOption with
      | none => rfl
      | some lists => simp [RuleOutput.add, Nat.add_assoc, Nat.add_comm 1]

/-- A delivery of all chunks gives the lines of all rows, or nothing. -/
theorem drain_chunks (m : StatementMap) (b : Batch) (roles : TermRoles) {size : Nat}
    (h : 0 < size) : (drain (m.render · roles) none (b.chunks size) {}).toOption =
      ((List.range b.numRows).mapM (m.lineAt? b roles)).map (RuleOutput.ofLines size) := by
  rw [toOption_drain, length_chunks b h, sum_numRows_chunks, ← m.flatten_render_chunks b roles size,
    Option.map_map]
  cases hl : (b.chunks size).mapM fun c => (m.render c roles).toOption with
  | none => rfl
  | some lists =>
    have rows : lists.flatten.length = b.numRows := by
      have := m.flatten_render_chunks b roles size
      rw [hl] at this
      simpa using length_of_mapM this.symm
    simp [RuleOutput.ofLines, rows]

end RdfMapping
