import VerifierCI.Execution.Matrix

/-! # What the reducer selects

Authoritative attempts come before others, later ones before earlier ones. The
attempt ahead of all others of its repetition is selected, unless it is stale or
abandoned.
-/

namespace VerifierCI

open Python Relational

/-! ## The order of attempts -/

/-- The comparison of the keys succeeds in favour of `a`. -/
def Later (a b : EvaluationAttempt) : Prop :=
  isLater a b = .ok true

/-- The keys are compared by fence, then by start, then by id; two starts of different kinds
have no order. -/
theorem later_iff {a b : EvaluationAttempt} :
    Later a b ↔ b.fence < a.fence ∨ a.fence = b.fence ∧
      a.startedAt.utcoffset.isSome = b.startedAt.utcoffset.isSome ∧
        (b.startedAt.instant < a.startedAt.instant ∨
          a.startedAt.instant = b.startedAt.instant ∧ b.attemptId < a.attemptId) := by
  unfold Later isLater
  -- The branches are the first component in which the keys differ; two zones do not compare.
  split_ifs with hfence hzone hinstant
  · simp only [Except.ok.injEq, decide_eq_true_eq]
    omega
  · simp only [false_iff, not_or, not_and]
    rw [ne_eq, not_not] at hfence
    exact ⟨by omega, fun _ heq => absurd heq hzone⟩
  · simp only [ne_eq, not_not] at hfence hzone
    simp only [Except.ok.injEq, decide_eq_true_eq]
    constructor
    · exact fun h => Or.inr ⟨hfence, hzone, Or.inl h⟩
    · rintro (h | ⟨_, _, h | ⟨heq, _⟩⟩)
      · omega
      · exact h
      · exact absurd heq hinstant
  · simp only [ne_eq, not_not] at hfence hzone hinstant
    simp only [Except.ok.injEq, decide_eq_true_eq]
    constructor
    · exact fun h => Or.inr ⟨hfence, hzone, Or.inr ⟨hinstant, h⟩⟩
    · rintro (h | ⟨_, _, h | ⟨_, h⟩⟩)
      · omega
      · omega
      · exact h

theorem Later.trans {a b c : EvaluationAttempt} (hab : Later a b) (hbc : Later b c) :
    Later a c := by
  rw [later_iff] at *
  rcases hab with hab | ⟨hfence, hzone, hab⟩
  · rcases hbc with hbc | ⟨hfence', _, _⟩
    · exact Or.inl (by omega)
    · exact Or.inl (by omega)
  · rcases hbc with hbc | ⟨hfence', hzone', hbc⟩
    · exact Or.inl (by omega)
    · refine Or.inr ⟨hfence.trans hfence', hzone.trans hzone', ?_⟩
      rcases hab with hab | ⟨hinstant, hab⟩
      · rcases hbc with hbc | ⟨hinstant', _⟩
        · exact Or.inl (by omega)
        · exact Or.inl (by omega)
      · rcases hbc with hbc | ⟨hinstant', hbc⟩
        · exact Or.inl (by omega)
        · exact Or.inr ⟨hinstant.trans hinstant', lt_trans hbc hab⟩

theorem Later.irrefl (a : EvaluationAttempt) : ¬ Later a a := by
  rw [later_iff]
  rintro (h | ⟨_, _, h | ⟨_, h⟩⟩)
  · omega
  · omega
  · exact lt_irrefl _ h

/-- Of two attempts that can be compared one is later. -/
theorem later_of_not_later {a b : EvaluationAttempt} (h : isLater a b = .ok false)
    (hids : a.attemptId ≠ b.attemptId) : Later b a := by
  rw [later_iff]
  unfold isLater at h
  split_ifs at h with hfence hzone hinstant
  · simp only [Except.ok.injEq, decide_eq_false_iff_not] at h
    exact Or.inl (by omega)
  · simp only [ne_eq, not_not] at hfence hzone
    simp only [Except.ok.injEq, decide_eq_false_iff_not] at h
    exact Or.inr ⟨hfence.symm, hzone.symm, Or.inl (by omega)⟩
  · simp only [ne_eq, not_not] at hfence hzone hinstant
    simp only [Except.ok.injEq, decide_eq_false_iff_not] at h
    exact Or.inr
      ⟨hfence.symm, hzone.symm, Or.inr ⟨hinstant.symm, lt_of_le_of_ne (not_lt.mp h) hids⟩⟩

/-- One turn of the scan: the attempt takes the place of the best so far, or does not. -/
theorem latest_cons {best attempt : EvaluationAttempt} {rest : List EvaluationAttempt}
    {selected : EvaluationAttempt} (h : latest best (attempt :: rest) = .ok selected) :
    (isLater attempt best = .ok true ∧ latest attempt rest = .ok selected) ∨
      (isLater attempt best = .ok false ∧ latest best rest = .ok selected) := by
  rw [latest, bind_eq_ok] at h
  obtain ⟨later, hlater, hrest⟩ := h
  cases later with
  | true => exact Or.inl ⟨hlater, by simpa using hrest⟩
  | false => exact Or.inr ⟨hlater, by simpa using hrest⟩

theorem latest_mem {best selected : EvaluationAttempt} {rest : List EvaluationAttempt}
    (h : latest best rest = .ok selected) : selected ∈ best :: rest := by
  induction rest generalizing best with
  | nil =>
      obtain rfl := Except.ok.inj h
      exact List.mem_singleton_self best
  | cons attempt rest ih =>
      rcases latest_cons h with ⟨_, hrest⟩ | ⟨_, hrest⟩
      · exact List.mem_cons_of_mem best (ih hrest)
      · rcases List.mem_cons.mp (ih hrest) with rfl | hmem
        · exact List.mem_cons_self
        · exact List.mem_cons_of_mem best (List.mem_cons_of_mem attempt hmem)

/-- The selected attempt is later than every other one. -/
theorem latest_max {best selected : EvaluationAttempt} {rest : List EvaluationAttempt}
    (h : latest best rest = .ok selected)
    (hids : ((best :: rest).map EvaluationAttempt.attemptId).Nodup) :
    ∀ other ∈ best :: rest, other ≠ selected → Later selected other := by
  induction rest generalizing best with
  | nil =>
      obtain rfl := Except.ok.inj h
      intro other hother hne
      exact absurd (List.mem_singleton.mp hother) hne
  | cons attempt rest ih =>
      rw [List.map_cons, List.map_cons, List.nodup_cons, List.nodup_cons, List.mem_cons,
        not_or] at hids
      obtain ⟨⟨hne, hbest⟩, hattempt, hrest⟩ := hids
      intro other hother hother'
      rcases latest_cons h with ⟨hlater, htail⟩ | ⟨hlater, htail⟩
      · have hmax := ih htail (List.nodup_cons.mpr ⟨hattempt, hrest⟩)
        rcases List.mem_cons.mp hother with rfl | hmem
        · by_cases heq : attempt = selected
          · exact heq ▸ hlater
          · exact (hmax attempt List.mem_cons_self heq).trans hlater
        · exact hmax other hmem hother'
      · have hmax := ih htail (List.nodup_cons.mpr ⟨hbest, hrest⟩)
        rcases List.mem_cons.mp hother with rfl | hmem
        · exact hmax other List.mem_cons_self hother'
        · rcases List.mem_cons.mp hmem with rfl | hmem
          · have hbehind := later_of_not_later hlater (Ne.symm hne)
            by_cases heq : best = selected
            · exact heq ▸ hbehind
            · exact (hmax best List.mem_cons_self heq).trans hbehind
          · exact hmax other (List.mem_cons_of_mem best hmem) hother'

/-- The keys can be compared: on equal fences both start times are aware or both naive. -/
def Comparable (a b : EvaluationAttempt) : Prop :=
  a.fence = b.fence → a.startedAt.utcoffset.isSome = b.startedAt.utcoffset.isSome

theorem comparable_of_fences {attempts : List EvaluationAttempt}
    (hfences : (attempts.map EvaluationAttempt.fence).Nodup) : attempts.Pairwise Comparable :=
  (List.pairwise_map.mp hfences).imp fun hne heq => absurd heq hne

theorem isLater_ok {a b : EvaluationAttempt} (h : Comparable b a) :
    ∃ later, isLater a b = .ok later := by
  unfold isLater
  split_ifs with hfence hzone
  · exact ⟨_, rfl⟩
  · rw [ne_eq, not_not] at hfence
    exact absurd (h hfence.symm).symm hzone
  · exact ⟨_, rfl⟩
  · exact ⟨_, rfl⟩

/-- Of attempts that can be compared there is a latest one. -/
theorem latest_ok {best : EvaluationAttempt} {rest : List EvaluationAttempt}
    (hcomparable : (best :: rest).Pairwise Comparable) :
    ∃ selected, latest best rest = .ok selected := by
  induction rest generalizing best with
  | nil => exact ⟨best, rfl⟩
  | cons attempt rest ih =>
      obtain ⟨hbest, hattempt⟩ := List.pairwise_cons.mp hcomparable
      obtain ⟨later, hlater⟩ := isLater_ok (hbest attempt List.mem_cons_self)
      obtain ⟨selected, hselected⟩ :
          ∃ selected, latest (if later then attempt else best) rest = .ok selected := by
        cases later with
        | true => exact ih hattempt
        | false => exact ih (List.pairwise_cons.mpr ⟨fun other hother =>
            hbest other (List.mem_cons_of_mem attempt hother), (List.pairwise_cons.mp hattempt).2⟩)
      refine ⟨selected, bind_eq_ok.mpr ⟨later, hlater, ?_⟩⟩
      cases later <;> exact hselected

/-! ## The preferred attempt -/

/-- `a` is ahead of `b`. -/
def Outranks (a b : EvaluationAttempt) : Prop :=
  (a.disposition = .authoritative ∧ b.disposition ≠ .authoritative) ∨
    ((a.disposition = .authoritative ↔ b.disposition = .authoritative) ∧ Later a b)

theorem Outranks.asymm {a b : EvaluationAttempt} (hab : Outranks a b) (hba : Outranks b a) :
    False := by
  rcases hab with ⟨ha, hb⟩ | ⟨hiff, hab⟩
  · rcases hba with ⟨hb', _⟩ | ⟨hiff', _⟩
    · exact hb hb'
    · exact hb (hiff'.mpr ha)
  · rcases hba with ⟨hb, ha⟩ | ⟨_, hba⟩
    · exact ha (hiff.mpr hb)
    · exact Later.irrefl a (hab.trans hba)

/-- The attempt a repetition is represented by. -/
structure Preferred (attempts : List EvaluationAttempt) (a : EvaluationAttempt) : Prop where
  mem : a ∈ attempts
  outranks : ∀ b ∈ attempts, b ≠ a → Outranks a b
  usable : a.disposition ≠ .stale ∧ a.disposition ≠ .abandoned

theorem Preferred.eq {attempts : List EvaluationAttempt} {a b : EvaluationAttempt}
    (ha : Preferred attempts a) (hb : Preferred attempts b) : a = b := by
  by_contra hne
  exact (ha.outranks b hb.mem (Ne.symm hne)).asymm (hb.outranks a ha.mem hne)

section Reduce

variable {attempts : List EvaluationAttempt} {result : RepetitionResult}

/-- One attempt ahead of all others is selected exactly if it is usable. -/
theorem preferred_iff_of_ahead {best : EvaluationAttempt} (hmem : best ∈ attempts)
    (hahead : ∀ b ∈ attempts, b ≠ best → Outranks best b) {a : EvaluationAttempt} :
    Preferred attempts a ↔
      a = best ∧ best.disposition ≠ .stale ∧ best.disposition ≠ .abandoned := by
  constructor
  · intro ha
    obtain rfl : a = best := by
      by_contra hne
      exact (ha.outranks best hmem (Ne.symm hne)).asymm (hahead a ha.mem hne)
    exact ⟨rfl, ha.usable⟩
  · rintro ⟨rfl, husable⟩
    exact ⟨hmem, hahead, husable⟩

structure ReducesTo (attempts : List EvaluationAttempt) (result : RepetitionResult) : Prop where
  selected : ∀ a, result.selected = some a ↔ Preferred attempts a
  excluded : ∀ id, id ∈ result.excluded ↔
    ∃ b ∈ attempts, b.attemptId = id ∧ result.selected ≠ some b

/-- The losers of a repetition are all its attempts but the selected one. -/
theorem mem_othersThan {selected : EvaluationAttempt}
    (hids : (attempts.map EvaluationAttempt.attemptId).Nodup) (hmem : selected ∈ attempts)
    {id : String} : id ∈ othersThan selected attempts ↔
      ∃ b ∈ attempts, b.attemptId = id ∧ some selected ≠ some b := by
  simp only [othersThan, List.mem_map, List.mem_filter, decide_eq_true_eq]
  constructor
  · rintro ⟨b, ⟨hb, hne⟩, rfl⟩
    refine ⟨b, hb, rfl, ?_⟩
    intro heq
    exact hne (congrArg EvaluationAttempt.attemptId (Option.some.inj heq).symm)
  · rintro ⟨b, hb, rfl, hne⟩
    refine ⟨b, ⟨hb, ?_⟩, rfl⟩
    intro heq
    exact hne (congrArg some (List.inj_on_of_nodup_map hids hmem hb heq.symm))

/-- The branches of the reduction: authoritative attempts come before all others, and the latest
of the others counts unless it is stale or abandoned. -/
theorem reduceRepetition_spec (h : reduceRepetition attempts = .ok result)
    (hids : (attempts.map EvaluationAttempt.attemptId).Nodup) : ReducesTo attempts result := by
  have hauth : ∀ {a}, a ∈ attempts.filter (fun attempt => attempt.disposition = .authoritative) ↔
      a ∈ attempts ∧ a.disposition = .authoritative := by
    intro a
    simp only [List.mem_filter, decide_eq_true_eq]
  unfold reduceRepetition at h
  split at h
  -- Some attempt is authoritative: the latest of these outranks everything else.
  next first rest hfilter =>
    obtain ⟨best, hbest, hresult⟩ := bind_eq_ok.mp h
    obtain rfl := Except.ok.inj hresult
    rw [hfilter] at hauth
    obtain ⟨hmem, hbestAuth⟩ := hauth.mp (latest_mem hbest)
    have hsub : ((first :: rest).map EvaluationAttempt.attemptId).Nodup := by
      rw [← hfilter]
      exact hids.sublist (List.filter_sublist.map EvaluationAttempt.attemptId)
    have hahead : ∀ b ∈ attempts, b ≠ best → Outranks best b := by
      intro b hb hne
      by_cases hbAuth : b.disposition = .authoritative
      · refine Or.inr ⟨by simp [hbestAuth, hbAuth], ?_⟩
        exact latest_max hbest hsub b (hauth.mpr ⟨hb, hbAuth⟩) hne
      · exact Or.inl ⟨hbestAuth, hbAuth⟩
    refine ⟨?_, fun id => mem_othersThan hids hmem⟩
    intro a
    rw [preferred_iff_of_ahead hmem hahead]
    simp only [Option.some.injEq, hbestAuth]
    constructor
    · rintro rfl
      exact ⟨rfl, by decide, by decide⟩
    · rintro ⟨rfl, _⟩
      rfl
  next hfilter =>
    have hnone : ∀ a ∈ attempts, a.disposition ≠ .authoritative := by
      intro a ha hdisposition
      have hmem := hauth.mpr ⟨ha, hdisposition⟩
      rw [hfilter] at hmem
      cases hmem
    split at h
    next =>
      obtain rfl := Except.ok.inj h
      refine ⟨fun a => ⟨fun hsome => (by cases hsome), fun ha => (by cases ha.mem)⟩, by simp⟩
    next first rest =>
      obtain ⟨best, hbest, hresult⟩ := bind_eq_ok.mp h
      have hmem := latest_mem hbest
      have hahead : ∀ b ∈ first :: rest, b ≠ best → Outranks best b := by
        intro b hb hne
        refine Or.inr ⟨?_, latest_max hbest hids b hb hne⟩
        simp [hnone b hb, hnone best hmem]
      split at hresult
      -- The latest attempt was set aside; it outranks the others, so none of them is preferred.
      next hunusable =>
        obtain rfl := Except.ok.inj hresult
        refine ⟨?_, fun id => List.mem_map.trans ?_⟩
        · intro a
          rw [preferred_iff_of_ahead hmem hahead]
          simp only [reduceCtorEq, false_iff, not_and]
          rintro _ hstale habandoned
          rcases hunusable with hdisposition | hdisposition
          · exact hstale hdisposition
          · exact habandoned hdisposition
        · simp
      next husable =>
        obtain rfl := Except.ok.inj hresult
        rw [not_or] at husable
        refine ⟨?_, fun id => mem_othersThan hids hmem⟩
        intro a
        rw [preferred_iff_of_ahead hmem hahead]
        simp only [Option.some.injEq]
        constructor
        · rintro rfl
          exact ⟨rfl, husable⟩
        · rintro ⟨rfl, _⟩
          rfl

/-- Attempts that can be compared are reduced. -/
theorem reduceRepetition_ok (hcomparable : attempts.Pairwise Comparable) :
    ∃ result, reduceRepetition attempts = .ok result := by
  unfold reduceRepetition
  split
  next first rest hfilter =>
    have hsub : (first :: rest).Pairwise Comparable := by
      rw [← hfilter]
      exact hcomparable.sublist List.filter_sublist
    obtain ⟨best, hbest⟩ := latest_ok hsub
    exact ⟨_, by rw [hbest]; rfl⟩
  next =>
    split
    next => exact ⟨_, rfl⟩
    next first rest =>
      obtain ⟨best, hbest⟩ := latest_ok hcomparable
      simp only [hbest, bind, Except.bind]
      split
      · exact ⟨_, rfl⟩
      · exact ⟨_, rfl⟩

end Reduce

/-! ## Cells -/

/-- The selected attempts and outcomes of a cell, read off its repetitions. -/
structure AggregatesTo (planned : Int) (attemptsOf : Nat → List EvaluationAttempt)
    (results : List RepetitionResult) : Prop where
  length : results.length = planned.toNat
  reduces : ∀ rep result, results[rep]? = some result → ReducesTo (attemptsOf rep) result

/-- Results listed by repetition can be looked up by repetition. -/
theorem forall₂_range {α : Type} {R : Nat → α → Prop} {n : Nat} {results : List α}
    (h : List.Forall₂ R (List.range n) results) :
    results.length = n ∧ ∀ rep result, results[rep]? = some result → R rep result := by
  rw [List.forall₂_iff_get] at h
  obtain ⟨hlength, hget⟩ := h
  rw [List.length_range] at hlength
  refine ⟨hlength.symm, ?_⟩
  intro rep result hresult
  obtain ⟨hlt, rfl⟩ := List.getElem?_eq_some_iff.mp hresult
  have h := hget rep (by rw [List.length_range]; omega) hlt
  simpa using h

section Aggregate

variable {header : CellHeader} {planned : Int} {attempts : List EvaluationAttempt}
  {jobRepetition : String → Option Int} {cell : AcceptanceCell}

/-- A cell is assembled from the reduced repetitions. -/
theorem aggregateCell_ok
    (hids : (attempts.map EvaluationAttempt.attemptId).Nodup)
    (h : aggregateCell header planned attempts jobRepetition = .ok cell) :
    ∃ results, AggregatesTo planned (attemptsAt planned jobRepetition attempts) results ∧
      cell = assembleCell header planned (unmappedAttempts planned jobRepetition attempts)
        results := by
  obtain ⟨results, hresults, hcell⟩ := bind_eq_ok.mp h
  obtain ⟨hlength, hreduce⟩ := forall₂_range (mapM_eq_ok.mp hresults)
  refine ⟨results, ⟨hlength, ?_⟩, (Except.ok.inj hcell).symm⟩
  intro rep result hresult
  exact reduceRepetition_spec (hreduce rep result hresult)
    (hids.sublist (List.filter_sublist.map EvaluationAttempt.attemptId))

/-- Aggregation succeeds where every repetition can be reduced. -/
theorem aggregateCell_succeeds (header : CellHeader)
    (hreduce : ∀ rep : Nat, ∃ result,
      reduceRepetition (attemptsAt planned jobRepetition attempts rep) = .ok result) :
    ∃ cell, aggregateCell header planned attempts jobRepetition = .ok cell := by
  choose result hresult using hreduce
  have hresults : (List.range planned.toNat).mapM (fun rep =>
      reduceRepetition (attemptsAt planned jobRepetition attempts rep)) =
      .ok ((List.range planned.toNat).map result) := by
    rw [mapM_eq_ok, List.forall₂_map_right_iff, List.forall₂_same]
    exact fun rep _ => hresult rep
  exact ⟨_, bind_eq_ok.mpr ⟨_, hresults, rfl⟩⟩

end Aggregate

namespace AggregatesTo

variable {header : CellHeader} {planned : Int} {attemptsOf : Nat → List EvaluationAttempt}
  {unmapped : List EvaluationAttempt} {results : List RepetitionResult}

theorem getElem?_some (h : AggregatesTo planned attemptsOf results) {rep : Nat}
    (hrep : (rep : Int) < planned) : ∃ result, results[rep]? = some result := by
  have hlt : rep < results.length := by
    rw [h.length]
    omega
  exact ⟨results[rep], List.getElem?_eq_getElem hlt⟩

theorem lt_of_getElem? (h : AggregatesTo planned attemptsOf results) {rep : Nat}
    {result : RepetitionResult} (hresult : results[rep]? = some result) :
    (rep : Int) < planned := by
  have hlt := (List.getElem?_eq_some_iff.mp hresult).1
  rw [h.length] at hlt
  omega

/-- The selected attempts are the preferred ones of the planned repetitions. -/
theorem mem_selected (h : AggregatesTo planned attemptsOf results) {id : String} :
    id ∈ (assembleCell header planned unmapped results).selectedAttemptIds ↔
      ∃ rep : Nat, (rep : Int) < planned ∧
        ∃ a, Preferred (attemptsOf rep) a ∧ a.attemptId = id := by
  simp only [assembleCell, List.mem_filterMap, Option.map_eq_some_iff]
  constructor
  · rintro ⟨result, hmem, a, hselected, rfl⟩
    obtain ⟨rep, hrep⟩ := List.mem_iff_getElem?.mp hmem
    exact ⟨rep, h.lt_of_getElem? hrep, a, ((h.reduces rep result hrep).selected a).mp hselected,
      rfl⟩
  · rintro ⟨rep, hrep, a, ha, rfl⟩
    obtain ⟨result, hresult⟩ := h.getElem?_some hrep
    exact ⟨result, List.mem_of_getElem? hresult, a,
      ((h.reduces rep result hresult).selected a).mpr ha, rfl⟩

/-- The outcome recorded for a repetition is that of its preferred attempt. -/
theorem outcome_of_preferred (h : AggregatesTo planned attemptsOf results) {rep : Nat}
    (hrep : (rep : Int) < planned) {a : EvaluationAttempt} (ha : Preferred (attemptsOf rep) a) :
    (results.map RepetitionResult.outcome)[rep]? = some (orPending a.outcome) := by
  obtain ⟨result, hresult⟩ := h.getElem?_some hrep
  have hselected := ((h.reduces rep result hresult).selected a).mpr ha
  simp only [List.getElem?_map, hresult, Option.map_some, RepetitionResult.outcome, hselected,
    Option.bind_some]

theorem outcome_of_none (h : AggregatesTo planned attemptsOf results) {rep : Nat}
    (hrep : (rep : Int) < planned) (hnone : ∀ a, ¬ Preferred (attemptsOf rep) a) :
    (results.map RepetitionResult.outcome)[rep]? = some .pending := by
  obtain ⟨result, hresult⟩ := h.getElem?_some hrep
  have hselected : result.selected = none := by
    cases hsome : result.selected with
    | none => rfl
    | some a => exact absurd (((h.reduces rep result hresult).selected a).mp hsome) (hnone a)
  simp only [List.getElem?_map, hresult, Option.map_some, RepetitionResult.outcome, hselected,
    Option.bind_none, orPending]

end AggregatesTo

/-! ## Verdicts -/

theorem orPending_eq_completed {outcome : Option Outcome} {value : Outcome} :
    orPending outcome = .completed value ↔ outcome = some value := by
  cases outcome <;> simp [orPending]

theorem dedupeCodes_append (codes : List String) (code : String) :
    dedupeCodes (codes ++ [code]) = appendIfAbsent (dedupeCodes codes) code := by
  simp [dedupeCodes]

theorem mem_appendIfAbsent {codes : List String} {code other : String} :
    code ∈ appendIfAbsent codes other ↔ code ∈ codes ∨ code = other := by
  unfold appendIfAbsent
  split_ifs with hmem
  · refine ⟨Or.inl, ?_⟩
    rintro (h | rfl)
    · exact h
    · exact hmem
  · rw [List.mem_append, List.mem_singleton]

theorem mem_dedupeCodes {codes : List String} {code : String} :
    code ∈ dedupeCodes codes ↔ code ∈ codes := by
  induction codes using List.reverseRecOn with
  | nil => simp [dedupeCodes]
  | append_singleton rest last ih =>
      rw [dedupeCodes_append, mem_appendIfAbsent, ih, List.mem_append, List.mem_singleton]

section Verdict

variable {planned : Int} {outcomes : List RepetitionOutcome} {codes : List String}

/-- Nothing is missing once as many repetitions are completed as are planned. -/
theorem completed_eq (hlength : outcomes.length = planned.toNat)
    (hnot : ¬ (((outcomes.filter (· ≠ .pending)).length : Int) < planned)) :
    outcomes.filter (· ≠ .pending) = outcomes := by
  have hle := List.length_filter_le (fun o : RepetitionOutcome => decide (o ≠ .pending)) outcomes
  exact List.filter_sublist.eq_of_length (by omega)

theorem completed_of_all {outcome : Outcome} (hall : ∀ o ∈ outcomes, o = .completed outcome) :
    outcomes.filter (· ≠ .pending) = outcomes := by
  rw [List.filter_eq_self]
  intro o ho
  rw [hall o ho]
  rfl

/-- A count of accepting repetitions equal to the plan's leaves no room for any other
outcome. -/
theorem cellVerdict_accept_iff (hlength : outcomes.length = planned.toNat) :
    (cellVerdict planned outcomes codes).1 = .accept ∧
      (cellVerdict planned outcomes codes).2.1 = .valid ↔
        ∀ o ∈ outcomes, o = .completed .accept := by
  constructor
  · intro h
    unfold cellVerdict at h
    simp only at h
    split_ifs at h with hmissing haccept
    all_goals try (simp at h; done)
    rw [completed_eq hlength hmissing] at haccept
    exact fun o ho => (List.count_eq_length.mp haccept o ho).symm
  · intro hall
    have hcount : outcomes.count (.completed .accept) = outcomes.length :=
      List.count_eq_length.mpr fun o ho => (hall o ho).symm
    unfold cellVerdict
    simp only [completed_of_all hall]
    rw [if_neg (by omega), if_pos hcount]
    exact ⟨rfl, rfl⟩

/-- As for an acceptance, but a plan without repetitions accepts, as that branch comes first. -/
theorem cellVerdict_reject_iff (hlength : outcomes.length = planned.toNat) (hpos : 0 < planned) :
    (cellVerdict planned outcomes codes).1 = .reject ∧
      (cellVerdict planned outcomes codes).2.1 = .valid ↔
        ∀ o ∈ outcomes, o = .completed .reject := by
  constructor
  · intro h
    unfold cellVerdict at h
    simp only at h
    split_ifs at h with hmissing haccept hreject
    all_goals try (simp at h; done)
    rw [completed_eq hlength hmissing] at hreject
    exact fun o ho => (List.count_eq_length.mp hreject o ho).symm
  · intro hall
    have hreject : outcomes.count (.completed .reject) = outcomes.length :=
      List.count_eq_length.mpr fun o ho => (hall o ho).symm
    have haccept : outcomes.count (.completed .accept) = 0 := by
      rw [List.count_eq_zero]
      intro hmem
      exact absurd (hall _ hmem) (by decide)
    unfold cellVerdict
    simp only [completed_of_all hall]
    rw [if_neg (by omega), if_neg (by omega), if_pos hreject]
    exact ⟨rfl, rfl⟩

end Verdict

end VerifierCI
