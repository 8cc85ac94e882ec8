import Mathlib.Logic.Function.Iterate
import TemplateCompiler.Proofs.Session.Asking
import TemplateCompiler.Proofs.Session.History

/-!
# Loading on demand

Files are loaded and analysed for each other, also where they refer to each other in a circle. A file
that is loaded has a record from then on, so that each load leaves one source less without a record
(`pending_insert_lt`). Hence the depth of `fileSummary` is never reached (`iterate_summaryRound_eq`), and
what a request does to the records and the loads of a session is known without looking at the templates
(`Grows`).
-/

namespace TemplateCompiler

theorem Records.get?_eq_of_same {p q : Path} (h : p.same q = true) (r : Records) :
    r.get? p = r.get? q := Path.find?_eq_of_same h _

namespace Workspace

variable {w : Workspace}

/-! ## Sources without a record -/

/-- The number of sources without a record. -/
def pending (w : Workspace) (r : Records) : Nat :=
  (w.sources.filter fun e => (r.get? e.1).isNone).length

theorem pending_le (w : Workspace) (r : Records) : w.pending r ≤ w.sources.length :=
  List.length_filter_le _ _

theorem pending_mono {r t : Records} (h : ∀ q, t.get? q = none → r.get? q = none) :
    w.pending t ≤ w.pending r := by
  unfold pending
  rw [← List.countP_eq_length_filter, ← List.countP_eq_length_filter]
  apply List.countP_mono_left
  intro e _ he
  rw [Option.isNone_iff_eq_none] at *
  exact h e.1 he

theorem exists_source_of_load {p : Path} {program : Program} (h : w.load p = some program) :
    ∃ e ∈ w.sources, e.1.same p = true := by
  rw [load, Path.find?, Option.map_eq_some_iff] at h
  obtain ⟨e, he, -⟩ := h
  have hmem := List.mem_of_find?_eq_some he
  have hsame := List.find?_some he
  exact ⟨e, List.mem_reverse.mp hmem, hsame⟩

/-- A source that gets its first record is pending no more. -/
theorem pending_insert_lt {r : Records} {p : Path} {program : Program} (hrecord : r.get? p = none)
    (hload : w.load p = some program) (record : Record) :
    w.pending (r.insert p record) < w.pending r := by
  have hfilter : (w.sources.filter fun e => ((r.insert p record).get? e.1).isNone) =
      (w.sources.filter fun e => (r.get? e.1).isNone).filter fun e => !p.same e.1 := by
    rw [List.filter_filter]
    congr 1
    funext e
    rw [Records.get?_insert]
    cases p.same e.1 <;> simp
  obtain ⟨e, he, hsame⟩ := exists_source_of_load hload
  have hnone : r.get? e.1 = none := by rw [Records.get?_eq_of_same hsame, hrecord]
  unfold pending
  rw [hfilter, List.length_filter_lt_length_iff_exists]
  refine ⟨e, List.mem_filter.mpr ⟨he, by rw [hnone]; rfl⟩, ?_⟩
  rw [Path.same_symm hsame]
  decide

theorem load_eq_none_of_pending {r : Records} {p : Path} (h : w.pending r = 0)
    (hrecord : r.get? p = none) : w.load p = none := by
  cases hload : w.load p with
  | none => rfl
  | some program =>
    have hlt := pending_insert_lt hrecord hload .inProgress
    omega

/-! ## What a request leaves behind -/

/-- What requests for summaries do to a session: records stay as they are, no file without a record is
left in progress, and only files without a record are loaded, which have one from then on. -/
structure Grows (w : Workspace) (s t : Session) : Prop where
  kept : ∀ q record, s.records.get? q = some record → t.records.get? q = some record
  settled : ∀ q, t.records.get? q = some .inProgress → s.records.get? q = some .inProgress
  requests : ∃ requests, t.loads = s.loads ++ requests ∧
    (∀ q ∈ requests, s.records.get? q = none) ∧
    (∀ q ∈ requests, (w.load q).isSome = true → t.records.get? q ≠ none) ∧
    (requests.filter fun q => (w.load q).isSome).Pairwise fun q r => q.same r = false

namespace Grows

theorem of_eq {s t : Session} (hrecords : t.records = s.records) (hloads : t.loads = s.loads) :
    w.Grows s t := by
  refine ⟨fun q record h => hrecords ▸ h, fun q h => hrecords ▸ h, [], ?_, ?_, ?_, .nil⟩
  · rw [hloads, List.append_nil]
  · exact fun q h => (List.not_mem_nil h).elim
  · exact fun q h => (List.not_mem_nil h).elim

theorem refl (w : Workspace) (s : Session) : w.Grows s s := of_eq rfl rfl

theorem get?_eq_none {s t : Session} (h : w.Grows s t) {q : Path} (hq : t.records.get? q = none) :
    s.records.get? q = none := by
  cases hrecord : s.records.get? q with
  | none => rfl
  | some record =>
    rw [h.kept q record hrecord] at hq
    cases hq

theorem pending_le {s t : Session} (h : w.Grows s t) : w.pending t.records ≤ w.pending s.records :=
  pending_mono fun _ => h.get?_eq_none

theorem trans {s t u : Session} (hst : w.Grows s t) (htu : w.Grows t u) : w.Grows s u := by
  obtain ⟨first, hfirst, hfirstFree, hfirstKnown, hfirstOnce⟩ := hst.requests
  obtain ⟨second, hsecond, hsecondFree, hsecondKnown, hsecondOnce⟩ := htu.requests
  refine ⟨fun q record h => htu.kept q record (hst.kept q record h),
    fun q h => hst.settled q (htu.settled q h), first ++ second, ?_, ?_, ?_, ?_⟩
  · rw [hsecond, hfirst, List.append_assoc]
  · intro q hq
    rcases List.mem_append.mp hq with hq | hq
    · exact hfirstFree q hq
    · exact hst.get?_eq_none (hsecondFree q hq)
  · intro q hq hload hnone
    rcases List.mem_append.mp hq with hq | hq
    · exact hfirstKnown q hq hload (htu.get?_eq_none hnone)
    · exact hsecondKnown q hq hload hnone
  · rw [List.filter_append, List.pairwise_append]
    refine ⟨hfirstOnce, hsecondOnce, fun q hq r hr => ?_⟩
    -- a file that was loaded first has a record when the others are asked for
    have hknown := hfirstKnown q (List.mem_filter.mp hq).1 (List.mem_filter.mp hq).2
    have hfree := hsecondFree r (List.mem_filter.mp hr).1
    rw [Bool.eq_false_iff]
    intro hsame
    rw [Records.get?_eq_of_same hsame, hfree] at hknown
    exact hknown rfl

end Grows

/-! ## The recursion without a bound -/

/-- The summary of a file, where `ask` answers for the files that it refers to. -/
def summaryRound (w : Workspace) (ask : Path → StateM Session (Option Summary)) (p : Path) :
    StateM Session (Option Summary) := do
  match (← get).records.get? p with
  | some (.analyzed summary) => pure (some summary)
  | some .inProgress => pure none
  | none =>
    match ← w.request p with
    | none => pure none
    | some program =>
      setRecord p .inProgress
      let m ← w.examine ask p program
      setRecord p (.analyzed m.summary)
      pure (some m.summary)

theorem fileSummary_succ (w : Workspace) (depth : Nat) :
    w.fileSummary (depth + 1) = w.summaryRound (w.fileSummary depth) := by
  funext p
  rw [fileSummary]
  rfl

section

variable {ask ask' : Path → StateM Session (Option Summary)} {p : Path} {program : Program}
  {s : Session}

theorem run_summaryRound_of_some {record : Record} (h : s.records.get? p = some record) :
    (w.summaryRound ask p).run s =
      (match record with
        | .analyzed summary => some summary
        | .inProgress => none, s) := by
  unfold summaryRound
  simp only [StateT.run_bind, StateT.run_get, pure_bind, h]
  cases record <;> rfl

theorem run_summaryRound_of_load_eq_none (h : s.records.get? p = none) (hload : w.load p = none) :
    (w.summaryRound ask p).run s = (none, { s with loads := s.loads ++ [p] }) := by
  unfold summaryRound
  simp only [StateT.run_bind, StateT.run_get, pure_bind, h, request, hload]
  rfl

/-- A session in which a file that was asked for is examined. -/
def examining (s : Session) (p : Path) : Session :=
  { s with loads := s.loads ++ [p], records := s.records.insert p .inProgress }

variable (ask) in
theorem run_summaryRound_of_load (h : s.records.get? p = none) (hload : w.load p = some program) :
    (w.summaryRound ask p).run s =
      let r := (w.examine ask p program).run (examining s p)
      (some r.1.summary, { r.2 with records := r.2.records.insert p (.analyzed r.1.summary) }) := by
  unfold summaryRound
  simp only [StateT.run_bind, StateT.run_get, pure_bind, h, request, hload]
  rfl

variable (ask) in
-- At the bound nothing is missed if there is nothing to load.
theorem run_fileSummary_zero (h : s.records.get? p = none → w.load p = none) :
    (w.fileSummary 0 p).run s = (w.summaryRound ask p).run s := by
  unfold fileSummary summaryRound
  simp only [StateT.run_bind, StateT.run_get, pure_bind]
  cases hrecord : s.records.get? p with
  | some record => cases record <;> rfl
  | none =>
    simp only [request, h hrecord]
    rfl

variable (w p program) in
theorem run_analyze_congr {I : Session → Prop}
    (hask : ∀ g u, I u → (ask g).run u = (ask' g).run u ∧ I ((ask g).run u).2)
    (hreadings : ∀ u n, I u → I { u with readings := n }) (hs : I s) :
    (w.analyze ask p program).run s = (w.analyze ask' p program).run s ∧
      I ((w.analyze ask p program).run s).2 := by
  have hjudged := run_judgeAll_congr w.setting.registry p hask
    program.occurrences (prepared p (w.storage.companions p s.readings).1 program)
    (hreadings s (w.storage.companions p s.readings).2 hs)
  rw [analyze_run, analyze_run]
  dsimp only
  rw [← hjudged.1]
  exact ⟨rfl, hjudged.2⟩

variable (w p program) in
theorem run_examine_congr {I : Session → Prop}
    (hask : ∀ g u, I u → (ask g).run u = (ask' g).run u ∧ I ((ask g).run u).2)
    (hreadings : ∀ u n, I u → I { u with readings := n }) (hs : I s) :
    (w.examine ask p program).run s = (w.examine ask' p program).run s ∧
      I ((w.examine ask p program).run s).2 := by
  unfold examine
  split
  · exact ⟨rfl, hs⟩
  · have hanalyzed := run_analyze_congr w p program hask hreadings hs
    rw [StateT.run_bind, StateT.run_bind, ← hanalyzed.1]
    exact ⟨rfl, hanalyzed.2⟩

theorem Grows.request (hrecord : s.records.get? p = none) (hload : w.load p = none) :
    w.Grows s { s with loads := s.loads ++ [p] } := by
  refine ⟨fun q record h => h, fun q h => h, [p], rfl, ?_, ?_, ?_⟩
  · exact fun q hq => List.mem_singleton.mp hq ▸ hrecord
  · intro q hq hsome
    rw [List.mem_singleton.mp hq, hload] at hsome
    cases hsome
  · simp [hload]

/-- A file that was examined is settled, and nothing else is changed by that. -/
theorem Grows.finish {t : Session} (hrecord : s.records.get? p = none) {summary : Summary}
    (h : w.Grows (examining s p) t) :
    w.Grows s { t with records := t.records.insert p (.analyzed summary) } := by
  -- the file itself has a mark, so what has no record is another file
  have hfree (q : Path) (hq : (examining s p).records.get? q = none) :
      p.same q = false ∧ s.records.get? q = none := by
    rw [examining, Records.get?_insert] at hq
    split at hq
    · cases hq
    · exact ⟨Bool.eq_false_iff.mpr ‹_›, hq⟩
  obtain ⟨requests, hloads, hnone, hknown, honce⟩ := h.requests
  refine ⟨fun q record hq => ?_, fun q hq => ?_, p :: requests, ?_, ?_, ?_, ?_⟩
  · have hne : ¬p.same q = true := by
      intro hsame
      rw [← Records.get?_eq_of_same hsame, hrecord] at hq
      cases hq
    rw [Records.get?_insert, if_neg hne]
    apply h.kept
    rw [examining, Records.get?_insert, if_neg hne]
    exact hq
  · rw [Records.get?_insert] at hq
    split at hq
    · cases hq
    · have hbefore := h.settled q hq
      rwa [examining, Records.get?_insert, if_neg ‹_›] at hbefore
  · rw [hloads, examining, List.append_assoc, List.singleton_append]
  · intro q hq
    rcases List.mem_cons.mp hq with rfl | hq
    · exact hrecord
    · exact (hfree q (hnone q hq)).2
  · intro q hq hload
    rw [Records.get?_insert]
    split
    · exact Option.some_ne_none _
    · rcases List.mem_cons.mp hq with rfl | hq
      · exact absurd (Path.same_refl q) ‹_›
      · exact hknown q hq hload
  · rw [List.filter_cons]
    split
    · refine List.pairwise_cons.mpr ⟨fun q hq => ?_, honce⟩
      exact (hfree q (hnone q (List.mem_filter.mp hq).1)).1
    · exact honce

/-- One round, where the answers for other files agree and grow the session as long as there are fewer
sources without a record. -/
theorem run_summaryRound (ask ask' : Path → StateM Session (Option Summary)) (p : Path) (s : Session)
    (hask : ∀ g u, w.pending u.records < w.pending s.records →
      (ask g).run u = (ask' g).run u ∧ w.Grows u ((ask g).run u).2) :
    (w.summaryRound ask p).run s = (w.summaryRound ask' p).run s ∧
      w.Grows s ((w.summaryRound ask p).run s).2 := by
  cases hrecord : s.records.get? p with
  | some record =>
    rw [run_summaryRound_of_some hrecord, run_summaryRound_of_some hrecord]
    exact ⟨rfl, Grows.refl w s⟩
  | none =>
    cases hload : w.load p with
    | none =>
      rw [run_summaryRound_of_load_eq_none hrecord hload,
        run_summaryRound_of_load_eq_none hrecord hload]
      exact ⟨rfl, Grows.request hrecord hload⟩
    | some program =>
      have hlt := pending_insert_lt hrecord hload .inProgress
      -- while the file is examined it is in progress, so that less is pending for the others
      have hexamined := run_examine_congr w p program
        (I := w.Grows (examining s p))
        (fun g u hu => by
          have hless : w.pending u.records < w.pending s.records :=
            Nat.lt_of_le_of_lt hu.pending_le hlt
          exact ⟨(hask g u hless).1, hu.trans (hask g u hless).2⟩)
        (fun u n hu => hu.trans (Grows.of_eq rfl rfl)) (Grows.refl w (examining s p))
      rw [run_summaryRound_of_load ask hrecord hload, run_summaryRound_of_load ask' hrecord hload,
        ← hexamined.1]
      exact ⟨rfl, hexamined.2.finish hrecord⟩

/-- Whatever is put in place of the calls at the bound, no call gets there: the depth is only a
bound. -/
theorem run_iterate_summaryRound (rest : Path → StateM Session (Option Summary)) (depth : Nat)
    (p : Path) (s : Session) (hdepth : w.pending s.records ≤ depth) :
    (w.summaryRound^[depth + 1] rest p).run s = (w.fileSummary depth p).run s ∧
      w.Grows s ((w.fileSummary depth p).run s).2 := by
  induction depth generalizing p s with
  | zero =>
    have hzero : w.pending s.records = 0 := Nat.le_zero.mp hdepth
    have hround := run_summaryRound (w := w) rest rest p s fun g u hu => by omega
    rw [run_fileSummary_zero rest (load_eq_none_of_pending hzero)]
    exact ⟨rfl, hround.2⟩
  | succ depth ih =>
    rw [Function.iterate_succ_apply', fileSummary_succ]
    have hround := run_summaryRound (w := w) (w.fileSummary depth)
      (w.summaryRound^[depth + 1] rest) p s fun g u hu => by
        have hsmall : w.pending u.records ≤ depth := by omega
        exact ⟨(ih g u hsmall).1.symm, (ih g u hsmall).2⟩
    exact ⟨hround.1.symm, hround.2⟩

end

theorem iterate_summaryRound_eq (w : Workspace) (rest : Path → StateM Session (Option Summary)) :
    w.summaryRound^[w.sources.length + 1] rest = w.fileSummary w.sources.length := by
  funext p s
  exact (run_iterate_summaryRound rest _ p s (w.pending_le _)).1

-- The summaries of files solve the equation that leaves out the bound.
theorem summaryRound_fileSummary (w : Workspace) :
    w.summaryRound (w.fileSummary w.sources.length) = w.fileSummary w.sources.length := by
  have hone := w.iterate_summaryRound_eq fun _ => pure none
  have hmore := w.iterate_summaryRound_eq (w.summaryRound fun _ => pure none)
  rw [← Function.iterate_succ_apply, Function.iterate_succ_apply', hone] at hmore
  exact hmore

theorem grows_fileSummary (w : Workspace) (p : Path) (s : Session) :
    w.Grows s ((w.fileSummary w.sources.length p).run s).2 :=
  (run_iterate_summaryRound (fun _ => pure none) _ p s (w.pending_le _)).2

/-! ## Compilation -/

/-- What compiling a file does to a session: other files keep their summaries, no file is left in
progress, each file is loaded once at most, and the compiled file is not even asked for. -/
structure Compiles (w : Workspace) (p : Path) (s t : Session) : Prop where
  kept : ∀ q summary, q.same p = false → s.records.get? q = some (.analyzed summary) →
    t.records.get? q = some (.analyzed summary)
  settled : ∀ q, t.records.get? q = some .inProgress → s.records.get? q = some .inProgress
  requests : ∃ requests, t.loads = s.loads ++ requests ∧
    (requests.filter fun q => (w.load q).isSome).Pairwise (fun q r => q.same r = false) ∧
    ∀ q ∈ requests, q.same p = false

section

variable {p : Path} {program : Program} {s t : Session}

-- Only the record of the compiled file is changed.
theorem compiles_insert (summary : Summary) :
    w.Compiles p s { s with records := s.records.insert p (.analyzed summary) } := by
  refine ⟨fun q before hne hq => ?_, fun q hq => ?_, [], (List.append_nil _).symm, .nil, ?_⟩
  · rw [Records.get?_insert, if_neg]
    · exact hq
    · rw [Path.same_comm, hne]
      exact Bool.false_ne_true
  · rw [Records.get?_insert] at hq
    split at hq
    · cases hq
    · exact hq
  · exact fun q hq => (List.not_mem_nil hq).elim

theorem compiles_refl : w.Compiles p s s :=
  ⟨fun _ _ _ h => h, fun _ h => h, [], (List.append_nil _).symm, .nil,
    fun _ h => (List.not_mem_nil h).elim⟩

/-- A file that was in progress while others were asked for gets a record that is settled, or none. -/
theorem Grows.compiles {u : Session}
    (h : w.Grows { s with records := s.records.insert p .inProgress } u) (hloads : t.loads = u.loads)
    (hother : ∀ q, p.same q = false → t.records.get? q = u.records.get? q)
    (hself : ∀ q, p.same q = true → t.records.get? q ≠ some .inProgress) : w.Compiles p s t := by
  have hbefore (q : Path) (hne : p.same q = false) :
      (s.records.insert p .inProgress).get? q = s.records.get? q := by
    rw [Records.get?_insert, hne, if_neg Bool.false_ne_true]
  obtain ⟨requests, hrequests, hnone, -, honce⟩ := h.requests
  refine ⟨fun q summary hne hq => ?_, fun q hq => ?_, requests, hloads.trans hrequests, honce, ?_⟩
  · rw [Path.same_comm] at hne
    rw [hother q hne]
    apply h.kept
    rw [hbefore q hne]
    exact hq
  · cases hsame : p.same q with
    | true => exact absurd hq (hself q hsame)
    | false =>
      rw [hother q hsame] at hq
      rw [← hbefore q hsame]
      exact h.settled q hq
  · -- the compiled file has a record from the start
    intro q hq
    rw [Path.same_comm, Bool.eq_false_iff]
    intro hsame
    have hfree := hnone q hq
    rw [Records.get?_insert, if_pos hsame] at hfree
    cases hfree

theorem compiles_translateTemplate (w : Workspace) (p : Path) (program : Program) (s : Session) :
    w.Compiles p s ((w.translateTemplate p program).run s).2 := by
  have hanalyzed := run_analyze_congr w p program
    (I := w.Grows { s with records := s.records.insert p .inProgress })
    (fun g u hu => ⟨rfl, hu.trans (w.grows_fileSummary g u)⟩)
    (fun u n hu => hu.trans (Grows.of_eq rfl rfl)) (Grows.refl w _)
  rcases hrun : (w.analyze (w.fileSummary w.sources.length) p program).run
    { s with records := s.records.insert p .inProgress } with ⟨⟨c, m⟩, u⟩
  have hgrows := hanalyzed.2
  rw [hrun] at hgrows
  rw [run_translateTemplate_eq hrun]
  cases compileTemplate w.setting p c m program with
  | ok compiled =>
    refine hgrows.compiles rfl (fun q hne => ?_) fun q hsame => ?_
    · rw [Records.get?_insert, hne, if_neg Bool.false_ne_true]
    · rw [Records.get?_insert, if_pos hsame]
      exact fun h => by cases h
  | error e =>
    refine hgrows.compiles rfl (fun q hne => ?_) fun q hsame => ?_
    · rw [Records.get?_erase, hne, if_neg Bool.false_ne_true]
    · rw [Records.get?_erase, if_pos hsame]
      exact fun h => by cases h

theorem compiles_translate (w : Workspace) (p : Path) (program : Program) (s : Session) :
    w.Compiles p s ((w.translate p program).run s).2 := by
  unfold translate
  cases program.moduleCode with
  | none => exact compiles_translateTemplate w p program s
  | some code =>
    dsimp only
    cases compileCode p code with
    | error e => exact compiles_refl
    | ok compiled => exact compiles_insert compiled.metadata.summary

end

/-! ## Main result -/

/-- The sessions that come from a new one by compiling files, whatever their programs are. -/
inductive Arises (w : Workspace) : Session → Prop where
  | new : Arises w .new
  | translate {s : Session} (p : Path) (program : Program) (h : Arises w s) :
    Arises w ((w.translate p program).run s).2

theorem Arises.not_inProgress {w : Workspace} {s : Session} (h : w.Arises s) (q : Path) :
    s.records.get? q ≠ some .inProgress := by
  induction h with
  | new => exact fun hq => by cases hq
  | translate p program _ ih =>
    intro hq
    exact ih ((w.compiles_translate p program _).settled q hq)

/-- Compiling a file ends: whatever is put in place of the calls at the bound, as many rounds as there
are sources come to the same, for all files and sessions. On the way no file is loaded twice, and that
file not at all; all summaries of other files stay; and nothing is left in progress, whether the file
compiles or not. -/
theorem translate_terminates (w : Workspace) (s : Session) (hs : w.Arises s) (p : Path)
    (program : Program) :
    (∀ rest, w.summaryRound^[w.sources.length + 1] rest = w.fileSummary w.sources.length) ∧
      let t := ((w.translate p program).run s).2
      (∃ requests, t.loads = s.loads ++ requests ∧
        (requests.filter fun q => (w.load q).isSome).Pairwise (fun q r => q.same r = false) ∧
        ∀ q ∈ requests, q.same p = false) ∧
      (∀ q summary, q.same p = false → s.records.get? q = some (.analyzed summary) →
        t.records.get? q = some (.analyzed summary)) ∧
      ∀ q, t.records.get? q ≠ some .inProgress := by
  have hcompiles := w.compiles_translate p program s
  exact ⟨w.iterate_summaryRound_eq, hcompiles.requests, hcompiles.kept,
    (Arises.translate p program hs).not_inProgress⟩

/-- Two cards that refer to each other, after the first one was compiled. -/
theorem translate_terminates_cards :
    let place : Marks := ⟨false, ⟨1, 1⟩⟩
    let card (other : String) : Program :=
      ⟨[.node (.tag place ⟨.static other, [], none, ["item"]⟩ [])], none⟩
    let w := ofTables {} [.ofTemplate "alpha" ⟨"/app/alpha.marko"⟩, .ofTemplate "beta" ⟨"/app/beta.marko"⟩]
      [] [(⟨"/app/alpha.marko"⟩, card "beta"), (⟨"/app/beta.marko"⟩, card "alpha")]
    let s := ((w.translate ⟨"/app/alpha.marko"⟩ (card "beta")).run .new).2
    let t := ((w.translate ⟨"/app/beta.marko"⟩ (card "alpha")).run s).2
    w.Arises s ∧
      (∀ rest, w.summaryRound^[w.sources.length + 1] rest = w.fileSummary w.sources.length) ∧
      (∃ requests, t.loads = s.loads ++ requests ∧
        (requests.filter fun q => (w.load q).isSome).Pairwise (fun q r => q.same r = false) ∧
        ∀ q ∈ requests, q.same ⟨"/app/beta.marko"⟩ = false) ∧
      (∀ q summary, q.same ⟨"/app/beta.marko"⟩ = false →
        s.records.get? q = some (.analyzed summary) →
        t.records.get? q = some (.analyzed summary)) ∧
      ∀ q, t.records.get? q ≠ some .inProgress := by
  intro place card w s t
  have hs : w.Arises s := .translate _ _ .new
  exact ⟨hs, translate_terminates w s hs ⟨"/app/beta.marko"⟩ (card "alpha")⟩

end Workspace

end TemplateCompiler
