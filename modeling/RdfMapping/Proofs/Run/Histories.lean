import RdfMapping.Proofs.Names
import RdfMapping.Proofs.Run.AnyOrder

/-!
A sink in the course of many runs.

Writes add their labels and their lines to what a sink has (`Sink.grown_of_takes`). A call that succeeds
writes each of its partitions, and one that fails writes nothing (`Call.succeeds_or_eq`). So each call
keeps what is said of the sink (`History.holds_step`): it has what the calls that succeeded gave, and
nothing else (`History.sink_holds`).
-/

namespace RdfMapping

/-! ## Writing to shelves -/

namespace Sink

/-- A line stands on a shelf with a label. -/
def Has (s : Sink) (label text : String) : Prop :=
  ∃ shelf ∈ s.shelves, shelf.1 = label ∧ text ∈ shelf.2

/-- The labels are in strictly ascending order, and none is refused. -/
structure Sound (s : Sink) : Prop where
  ascending : Ascending s.labels
  accepting : ∀ label, s.refuses label = false

/-- What writes make of a sink: they add their labels and their lines. -/
structure Grown (s : Sink) (writes : List (String × TextSet)) (t : Sink) : Prop where
  sound : t.Sound
  labels : ∀ label, label ∈ t.labels ↔ label ∈ s.labels ∨ ∃ w ∈ writes, w.1 = label
  has : ∀ label text, t.Has label text ↔ s.Has label text ∨ ∃ w ∈ writes, w.1 = label ∧ text ∈ w.2

theorem labels_put (label : String) (lines : TextSet) (shelves : List (String × TextSet)) :
    (put label lines shelves).map (·.1) = Ascending.insert label (shelves.map (·.1)) := by
  induction shelves with
  | nil => rfl
  | cons shelf rest ih =>
    rw [put, List.map_cons, Ascending.insert]
    split
    · rfl
    · split
      · rw [List.map_cons, ih]
      · rfl

theorem has_put (label : String) (lines : TextSet) (shelves : List (String × TextSet))
    {name text : String} :
    (∃ shelf ∈ put label lines shelves, shelf.1 = name ∧ text ∈ shelf.2) ↔
      (∃ shelf ∈ shelves, shelf.1 = name ∧ text ∈ shelf.2) ∨ (label = name ∧ text ∈ lines) := by
  induction shelves with
  | nil => simp [put]
  | cons shelf rest ih =>
    rw [put]
    split
    · rw [List.exists_mem_cons_iff, or_comm]
    · split
      · rw [List.exists_mem_cons_iff, List.exists_mem_cons_iff, ih, or_assoc]
      · rename_i notBefore notAfter
        have same : label = shelf.1 := Ascending.eq_of_not_lt notBefore notAfter
        rw [List.exists_mem_cons_iff, List.exists_mem_cons_iff, TextSet.mem_union, same, and_or_left,
          or_right_comm]

theorem Sound.exists_write? {s : Sink} (sound : s.Sound) (label : String) (lines : TextSet) :
    ∃ t, s.write? label lines = some t ∧ s.Grown [(label, lines)] t := by
  have taken : s.write? label lines = some { s with shelves := put label lines s.shelves } := by
    rw [write?, sound.accepting label]
    rfl
  have labels : labels { s with shelves := put label lines s.shelves } =
      Ascending.insert label s.labels := labels_put ..
  refine ⟨_, taken, ⟨?_, sound.accepting⟩, fun name => ?_, fun name text => ?_⟩
  · rw [labels]
    exact Ascending.insert_ascending sound.ascending
  · rw [labels, Ascending.mem_insert, or_comm]
    simp [eq_comm]
  · rw [Has, has_put]
    simp [Has]

theorem grown_of_takes {s t : Sink} {writes : List (String × TextSet)}
    (takes : Receiver.Takes write? s writes t) (sound : s.Sound) : s.Grown writes t := by
  induction takes with
  | nil => exact ⟨sound, by simp, by simp⟩
  | cons first others ih =>
    obtain ⟨_, taken, one⟩ := sound.exists_write? _ _
    obtain rfl := Option.some.inj (first.symm.trans taken)
    have rest := ih one.sound
    refine ⟨rest.sound, fun name => ?_, fun name text => ?_⟩
    · rw [rest.labels, one.labels, or_assoc]
      simp
    · rw [rest.has, one.has, or_assoc]
      simp

theorem Sound.exists_takes {s : Sink} (sound : s.Sound) (writes : List (String × TextSet)) :
    ∃ t, Receiver.Takes write? s writes t := by
  have accepts : ∀ x : Sink, x.Sound → ∀ label lines,
      ∃ t, x.write? label lines = some t ∧ t.Sound := by
    intro x sound label lines
    obtain ⟨t, taken, grown⟩ := sound.exists_write? label lines
    exact ⟨t, taken, grown.sound⟩
  exact Receiver.exists_takes accepts sound writes

section Reading

variable {s : Sink} {label text : String}

theorem partition?_eq_none_iff : s.partition? label = none ↔ label ∉ s.labels :=
  lookup_eq_none_iff_not_mem

/-- As labels are in order, the shelf that is found for one is the only one. -/
theorem mem_partition?_iff (sound : s.Sound) {lines : TextSet} (h : s.partition? label = some lines) :
    text ∈ lines ↔ s.Has label text := by
  have once : s.labels.Nodup := sound.ascending.imp String.ne_of_lt
  have found : (label, lines) ∈ s.shelves := mem_of_lookup h
  refine ⟨fun here => ⟨(label, lines), found, rfl, here⟩, ?_⟩
  rintro ⟨⟨_, kept⟩, member, rfl, here⟩
  exact eq_of_mem once member found ▸ here

theorem mem_unified_iff : text ∈ s.unified ↔ ∃ label, s.Has label text := by
  rw [unified, TextSet.mem_foldl_union Prod.snd]
  refine ⟨?_, ?_⟩
  · intro h
    rcases h with none | ⟨shelf, member, here⟩
    · exact absurd none TextSet.not_mem_empty
    · exact ⟨shelf.1, shelf, member, rfl, here⟩
  · intro h
    obtain ⟨_, shelf, member, -, here⟩ := h
    exact .inr ⟨shelf, member, here⟩

end Reading

end Sink

/-! ## What a partition gives -/

namespace Partition

variable {index : SubjectIndex} {d : DataSource} {s : Settings} {rules : List MappingRule}
  {text : String}

theorem mem_runRules {lines all : TextSet} (h : (runRules index d s rules lines).outcome = .ok all) :
    text ∈ all ↔ text ∈ lines ∨
      ∃ r ∈ rules, ∃ out, (r.run index d s).outcome = .ok out ∧ text ∈ out.lines := by
  induction rules generalizing lines with
  | nil =>
    cases h
    simp
  | cons r rest ih =>
    rw [runRules] at h
    cases ran : (r.run index d s).outcome with
    | error stop =>
      rw [Attempt.andThen_of_error ran] at h
      cases h
    | ok out =>
      rw [Attempt.andThen_of_ok ran] at h
      rw [ih h, TextSet.mem_union, List.exists_mem_cons_iff, or_assoc]
      simp [ran]

theorem mem_lines_of_alone {p : Partition} {lines : TextSet}
    (h : alone rules d s p = .ok (p.finished lines)) :
    text ∈ lines ↔ ∃ r ∈ p.rules, ∃ out,
      (r.run (SubjectIndex.ofRules rules) d s).outcome = .ok out ∧ text ∈ out.lines := by
  rw [alone, run, Attempt.map, map_eq_ok_iff] at h
  obtain ⟨all, ran, same⟩ := h
  obtain rfl := (Finished.mk.inj same).2.2
  rw [mem_runRules ran]
  simp

theorem exists_id_group_iff {id : String} :
    (∃ p ∈ group rules, p.id = id) ↔ ∃ r ∈ rules, r.partitionId = id := by
  refine ⟨?_, fun named => ?_⟩
  · intro h
    obtain ⟨p, hp, rfl⟩ := h
    exact (mem_group.mp hp).1
  · exact ⟨⟨id, rules.filter (·.partitionId == id)⟩, mem_group.mpr ⟨named, rfl⟩, rfl⟩

theorem exists_rule_group_iff {id : String} {has : MappingRule → Prop} :
    (∃ p ∈ group rules, p.id = id ∧ ∃ r ∈ p.rules, has r) ↔
      ∃ r ∈ rules, r.partitionId = id ∧ has r := by
  refine ⟨?_, ?_⟩
  · intro h
    obtain ⟨p, hp, rfl, r, hr, here⟩ := h
    rw [(mem_group.mp hp).2, List.mem_filter] at hr
    exact ⟨r, hr.1, eq_of_beq hr.2, here⟩
  · intro h
    obtain ⟨r, hr, rfl, here⟩ := h
    refine ⟨⟨r.partitionId, rules.filter (·.partitionId == r.partitionId)⟩,
      mem_group.mpr ⟨⟨r, hr, rfl⟩, rfl⟩, rfl, r, ?_, here⟩
    exact List.mem_filter.mpr ⟨hr, beq_self_eq_true _⟩

end Partition

/-! ## Calls -/

/-- A call without a time limit. -/
structure Call where
  rules : List MappingRule
  source : DataSource
  settings : Settings
  untimed : settings.timeoutSeconds = none

namespace Call

def Names (c : Call) (id : String) : Prop := ∃ r ∈ c.rules, r.partitionId = id

def Gives (c : Call) (id text : String) : Prop :=
  ∃ r ∈ c.rules, r.partitionId = id ∧ ∃ out,
    (r.run (SubjectIndex.ofRules c.rules) c.source c.settings).outcome = .ok out ∧ text ∈ out.lines

/-- What a call may make of a sink, and what may come of it, in whatever order its partitions complete. -/
inductive ComesTo (c : Call) (sink : Sink) : Sink → Except RunError Materialization → Prop
  | invalid {fault} (faulty : c.settings.validate = .error fault) :
      ComesTo c sink sink (.error (.settings fault))
  | crowded (valid : c.settings.validate = .ok ()) (many : Run.maxWorkers < c.settings.processes) :
      ComesTo c sink sink (.error .crashed)
  | ended {ended next outcome} (valid : c.settings.validate = .ok ())
      (room : c.settings.processes ≤ Run.maxWorkers)
      (ends : Run.Ends c.rules c.source c.settings ended)
      (delivered : Receiver.deliver Sink.write? sink ended = (next, outcome)) :
      ComesTo c sink next outcome

/-- What is made of a sink by materializing is one of these. -/
theorem comesTo_materialize (c : Call) (sink : Sink) :
    ∃ next, (materialize c.rules c.source c.settings (some sink)).sink = some next ∧
      c.ComesTo sink next (materialize c.rules c.source c.settings (some sink)).outcome := by
  cases valid : c.settings.validate with
  | error fault =>
    refine ⟨sink, ?_, ?_⟩
    · simp only [materialize, valid]
    · simp only [materialize, valid]
      exact .invalid valid
  | ok u =>
    obtain ⟨sent, came⟩ :=
      @materialize_eq_deliver c.rules c.source c.settings valid c.untimed sink
    refine ⟨_, sent, ?_⟩
    rw [came]
    rcases Nat.lt_or_ge Run.maxWorkers c.settings.processes with many | room
    · -- more workers than a pool can have
      have crashed : (Run.progress c.rules c.source c.settings).outcome = .error .crashed := by
        have several : ¬c.settings.processes ≤ 1 :=
          Nat.not_le.mpr (Nat.lt_trans (by decide : 1 < Run.maxWorkers) many)
        rw [Run.progress, if_neg several, Run.pooled, if_pos many]
      rw [crashed]
      exact .crowded valid many
    · exact .ended valid room (Run.ends_progress room) rfl

/-- What a run of a call that succeeds has made of the sink, and given. -/
structure Succeeds (c : Call) (sink next : Sink) (out : Materialization) : Prop where
  sound : next.Sound
  labels : ∀ id, id ∈ next.labels ↔ id ∈ sink.labels ∨ c.Names id
  has : ∀ id text, next.Has id text ↔ sink.Has id text ∨ c.Gives id text
  lines : ∀ text, text ∈ out.lines ↔ ∃ id, c.Gives id text

section Ended

variable {c : Call} {sink next : Sink} {ended : Except RunError (List Finished)}
  {outcome : Except RunError Materialization}

theorem deliver_of_finish (sound : sink.Sound) (ends : Run.Ends c.rules c.source c.settings ended)
    (finish : ∀ p ∈ Partition.group c.rules,
      ∃ f, Partition.alone c.rules c.source c.settings p = .ok f) :
    ∃ last out, Receiver.deliver Sink.write? sink ended = (last, .ok out) ∧
      c.Succeeds sink last out := by
  obtain ⟨lines, given⟩ := Partition.exists_lines finish
  obtain ⟨last, takes⟩ :=
    sound.exists_takes ((Partition.group c.rules).map fun p => (p.id, lines p))
  have grown := Sink.grown_of_takes takes sound
  -- the lines of a partition are those of its rules, which are the rules with its name
  have gives : ∀ id text, c.Gives id text ↔
      ∃ p ∈ Partition.group c.rules, p.id = id ∧ text ∈ lines p := by
    intro id text
    rw [Gives, ← Partition.exists_rule_group_iff]
    refine exists_congr fun p => and_congr_right fun hp => and_congr_right fun _ => ?_
    exact (Partition.mem_lines_of_alone (given p hp)).symm
  rw [ends.deliver_eq given, Receiver.publish_of_takes (by rw [List.map_map]; exact takes)]
  refine ⟨last, _, rfl, grown.sound, fun id => ?_, fun id text => ?_, fun text => ?_⟩
  · rw [grown.labels, Names, ← Partition.exists_id_group_iff]
    simp
  · rw [grown.has, gives]
    simp
  · rw [Run.mem_corpus]
    simp [gives, Partition.finished]

theorem deliver_of_failing (sink : Sink) (ends : Run.Ends c.rules c.source c.settings ended)
    (failing : ∃ p ∈ Partition.group c.rules, ∃ stop,
      Partition.alone c.rules c.source c.settings p = .error stop) :
    ∃ error, Receiver.deliver Sink.write? sink ended = (sink, .error error) := by
  obtain ⟨p, hp, stop, error, rfl⟩ := ends.stopped failing
  exact ⟨_, rfl⟩

theorem finish_or_failing (c : Call) :
    (∀ p ∈ Partition.group c.rules, ∃ f, Partition.alone c.rules c.source c.settings p = .ok f) ∨
      ∃ p ∈ Partition.group c.rules, ∃ stop,
        Partition.alone c.rules c.source c.settings p = .error stop := by
  by_cases finish : ∀ p ∈ Partition.group c.rules,
      ∃ f, Partition.alone c.rules c.source c.settings p = .ok f
  · exact .inl finish
  · obtain ⟨p, hp, none⟩ : ∃ p ∈ Partition.group c.rules,
        ¬∃ f, Partition.alone c.rules c.source c.settings p = .ok f := by
      simpa only [not_forall, exists_prop] using finish
    cases ran : Partition.alone c.rules c.source c.settings p with
    | ok f => exact absurd ⟨f, ran⟩ none
    | error stop => exact .inr ⟨p, hp, stop, ran⟩

/-- A call succeeds, or leaves the sink as it is. -/
theorem succeeds_or_eq (h : c.ComesTo sink next outcome) (sound : sink.Sound) :
    (∃ out, outcome = .ok out ∧ c.Succeeds sink next out) ∨
      ∃ error, outcome = .error error ∧ next = sink := by
  cases h with
  | invalid faulty => exact .inr ⟨_, rfl, rfl⟩
  | crowded valid many => exact .inr ⟨_, rfl, rfl⟩
  | ended valid room ends delivered =>
    rcases finish_or_failing c with finish | failing
    · obtain ⟨last, out, came, succeeds⟩ := deliver_of_finish sound ends finish
      cases delivered.symm.trans came
      exact .inl ⟨out, rfl, succeeds⟩
    · obtain ⟨error, came⟩ := deliver_of_failing sink ends failing
      cases delivered.symm.trans came
      exact .inr ⟨error, rfl, rfl⟩

end Ended

end Call

/-! ## Histories -/

/-- Calls on one sink with what came of them, the last one last, and the sink after them. -/
inductive History : List (Call × Except RunError Materialization) → Sink → Prop
  | start : History [] {}
  | call {past sink c next outcome} (before : History past sink)
      (comes : c.ComesTo sink next outcome) : History (past ++ [(c, outcome)]) next

namespace History

/-- A sink has what the calls that succeeded gave. -/
structure Holds (past : List (Call × Except RunError Materialization)) (sink : Sink) : Prop where
  sound : sink.Sound
  labels : ∀ id, id ∈ sink.labels ↔ ∃ c out, (c, .ok out) ∈ past ∧ c.Names id
  has : ∀ id text, sink.Has id text ↔ ∃ c out, (c, .ok out) ∈ past ∧ c.Gives id text
  lines : ∀ c out, (c, .ok out) ∈ past → ∀ text, text ∈ out.lines ↔ ∃ id, c.Gives id text

section Steps

variable {past : List (Call × Except RunError Materialization)} {sink next : Sink} {c : Call}
  {outcome : Except RunError Materialization}

theorem holds_start : Holds [] {} := by
  refine ⟨⟨.nil, fun _ => rfl⟩, fun id => ?_, fun id text => ?_, fun c out h => ?_⟩
  · simp [Sink.labels]
  · simp [Sink.Has]
  · cases h

theorem exists_mem_append_iff {given : Call → Materialization → Prop} :
    (∃ c' out, (c', .ok out) ∈ past ++ [(c, outcome)] ∧ given c' out) ↔
      (∃ c' out, (c', .ok out) ∈ past ∧ given c' out) ∨ ∃ out, outcome = .ok out ∧ given c out := by
  simp only [List.mem_append, List.mem_singleton, or_and_right, exists_or, Prod.mk.injEq]
  refine or_congr_right ⟨?_, ?_⟩
  · intro h
    obtain ⟨_, out, ⟨rfl, same⟩, here⟩ := h
    exact ⟨out, same.symm, here⟩
  · intro h
    obtain ⟨out, same, here⟩ := h
    exact ⟨c, out, ⟨rfl, same.symm⟩, here⟩

theorem holds_step (holds : Holds past sink) (comes : c.ComesTo sink next outcome) :
    Holds (past ++ [(c, outcome)]) next := by
  have came := Call.succeeds_or_eq comes holds.sound
  have lines : ∀ c' out', (c', .ok out') ∈ past ++ [(c, outcome)] →
      ∀ text, text ∈ out'.lines ↔ ∃ id, c'.Gives id text := by
    intro c' out' member
    rcases List.mem_append.mp member with before | last
    · exact holds.lines c' out' before
    · cases List.mem_singleton.mp last
      rcases came with ⟨out, same, succeeds⟩ | ⟨error, same, -⟩
      · cases same
        exact succeeds.lines
      · cases same
  rcases came with ⟨out, rfl, succeeds⟩ | ⟨error, rfl, rfl⟩
  · refine ⟨succeeds.sound, fun id => ?_, fun id text => ?_, lines⟩
    · rw [exists_mem_append_iff, succeeds.labels, holds.labels]
      simp
    · rw [exists_mem_append_iff, succeeds.has, holds.has]
      simp
  · -- a call that failed adds nothing to the past that succeeded, and nothing to the sink
    refine ⟨holds.sound, fun id => ?_, fun id text => ?_, lines⟩
    · rw [exists_mem_append_iff, holds.labels]
      simp
    · rw [exists_mem_append_iff, holds.has]
      simp

theorem holds_of_history (h : History past sink) : Holds past sink := by
  induction h with
  | start => exact holds_start
  | call _ comes ih => exact holds_step ih comes

end Steps

/-- **A sink over many runs.** After any calls on one sink, its labels are in order the names of the
partitions of those that succeeded, the lines of a label are those that they gave for it, and all lines
are those that they returned. A call that fails changes nothing. Materializing goes on with the history. -/
theorem sink_holds {past : List (Call × Except RunError Materialization)} {sink : Sink}
    (h : History past sink) :
    (Ascending sink.labels ∧
      ∀ id, id ∈ sink.labels ↔ ∃ c out, (c, .ok out) ∈ past ∧ c.Names id) ∧
    (∀ id, (sink.partition? id = none ↔ id ∉ sink.labels) ∧
      ∀ lines, sink.partition? id = some lines →
        ∀ text, text ∈ lines ↔ ∃ c out, (c, .ok out) ∈ past ∧ c.Gives id text) ∧
    (∀ text, text ∈ sink.unified ↔ ∃ c out, (c, .ok out) ∈ past ∧ text ∈ out.lines) ∧
    (∀ (c : Call) next error, c.ComesTo sink next (.error error) → next = sink) ∧
    ∀ c : Call, ∃ next,
      (materialize c.rules c.source c.settings (some sink)).sink = some next ∧
      History (past ++ [(c, (materialize c.rules c.source c.settings (some sink)).outcome)]) next := by
  have holds := holds_of_history h
  refine ⟨⟨holds.sound.ascending, holds.labels⟩, ?_, ?_, ?_, ?_⟩
  · refine fun id => ⟨Sink.partition?_eq_none_iff, fun lines found text => ?_⟩
    rw [Sink.mem_partition?_iff holds.sound found]
    exact holds.has id text
  · intro text
    rw [Sink.mem_unified_iff]
    refine ⟨?_, ?_⟩
    · intro h
      obtain ⟨id, has⟩ := h
      obtain ⟨c, out, member, gives⟩ := (holds.has id text).mp has
      exact ⟨c, out, member, (holds.lines c out member text).mpr ⟨id, gives⟩⟩
    · intro h
      obtain ⟨c, out, member, here⟩ := h
      obtain ⟨id, gives⟩ := (holds.lines c out member text).mp here
      exact ⟨id, (holds.has id text).mpr ⟨c, out, member, gives⟩⟩
  · intro c next error comes
    rcases Call.succeeds_or_eq comes holds.sound with ⟨out, other, -⟩ | ⟨-, -, same⟩
    · cases other
    · exact same
  · intro c
    obtain ⟨next, sent, comes⟩ := c.comesTo_materialize sink
    exact ⟨next, sent, .call h comes⟩

def countries : Call := ⟨Run.countryRules, countryStore.dataSource, { processes := 2 }, rfl⟩

def lost : Call := ⟨Run.lostRules, countryStore.dataSource, { processes := 2 }, rfl⟩

def idle : Call := ⟨Run.countryRules, countryStore.dataSource, { processes := 0 }, rfl⟩

theorem sink_holds_countries : ∃ out error sink,
    History [(countries, .ok out), (lost, .error error), (idle, .error (.settings .noProcesses))] sink ∧
      sink.labels = ["p1", "p2"] ∧ ∀ text, text ∈ sink.unified ↔ text ∈ out.lines := by
  obtain ⟨ended, ends⟩ := Run.exists_ends countries.rules countries.source countries.settings
  obtain ⟨ended', ends'⟩ := Run.exists_ends lost.rules lost.source lost.settings
  obtain ⟨sink, out, came, -⟩ :=
    Call.deliver_of_finish holds_start.sound ends Run.finish_countryRules
  obtain ⟨error, came'⟩ := Call.deliver_of_failing sink ends' Run.stop_lostRules
  have first : History [(countries, .ok out)] sink :=
    .call .start (.ended rfl (by decide) ends came)
  have second : History [(countries, .ok out), (lost, .error error)] sink :=
    .call first (.ended rfl (by decide) ends' came')
  have third : History [(countries, .ok out), (lost, .error error),
      (idle, .error (.settings .noProcesses))] sink := .call second (.invalid rfl)
  obtain ⟨⟨ascending, labels⟩, -, unified, -⟩ := sink_holds third
  refine ⟨out, error, sink, third, ?_, fun text => ?_⟩
  · refine Ascending.eq_of_mem_iff ascending (by decide) fun id => ?_
    have names : countries.Names id ↔ id = "p1" ∨ id = "p2" := by
      simp [Call.Names, countries, Run.countryRules, countryRule, eq_comm, or_comm]
    rw [labels]
    simp [names]
  · rw [unified]
    simp

end History

end RdfMapping
