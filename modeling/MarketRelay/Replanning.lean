import MarketRelay.Partition

/-!
# Resuming from the Cursor of a Plan

The cursor of a plan is meant as the last completed session of a later one. For a calendar that
classifies each date once, and in the same way at every call, planning again from it on the same
day gives the same plan, but for the leading dates without a session, which are not considered
again: the sorted answer of the second call is what the cursor left of the first one.

The day after the cursor must be a date. A plan whose cursor is the last representable date has
considered every date there is, and planning again from it raises.

## Main results

* `inOrder_eq_dropWhile`: what the calendar answers after the leading closed days.
* `plan_resume`: planning again from the cursor.
* `plan_resume_overflow`: a plan whose cursor has no following day.
-/

open Gregorian

namespace MarketRelay

/-- The calendar answers every range with each of its dates once, in any order, and classifies a
date in the same way at every call. -/
def Calendar.Classifies (calendar : Calendar) (assetClass : AssetClass) (venue : String)
    (mic : Option String) (classify : Date → SessionExpectation) : Prop :=
  ∀ first final : Date, first ≤ final → ∃ answer,
    calendar assetClass venue mic first final = .ok answer ∧
      ClassifiesEach answer first.ordinal final ∧
      ∀ check ∈ answer, check.expectation = classify check.sessionDate

theorem Calendar.ofClassification_classifies (classify : Date → SessionExpectation)
    (assetClass : AssetClass) (venue : String) (mic : Option String) :
    (Calendar.ofClassification classify).Classifies assetClass venue mic classify := by
  intro first final _
  refine ⟨_, rfl, ClassifiesEach.of_classification classify first final, fun check hcheck => ?_⟩
  obtain ⟨d, -, rfl⟩ := List.mem_map.mp hcheck
  rfl

/-- What such an answer contains. -/
theorem ClassifiesEach.mem_answer_iff {answer : List SessionCheck} {first final : Date}
    {classify : Date → SessionExpectation} (h : ClassifiesEach answer first.ordinal final)
    (hclassify : ∀ check ∈ answer, check.expectation = classify check.sessionDate)
    {check : SessionCheck} :
    check ∈ answer ↔ first ≤ check.sessionDate ∧ check.sessionDate ≤ final ∧
      check.expectation = classify check.sessionDate := by
  have hdate := h.mem_iff check.sessionDate
  rw [Nat.cast_le, ← Date.le_def] at hdate
  constructor
  · intro hcheck
    have hrange := hdate.mp (List.mem_map_of_mem hcheck)
    exact ⟨hrange.1, hrange.2, hclassify check hcheck⟩
  · rintro ⟨hlow, hhigh, hexpectation⟩
    obtain ⟨other, hother, hsame⟩ := List.mem_map.mp (hdate.mpr ⟨hlow, hhigh⟩)
    have hexpectation' := hclassify other hother
    rw [hsame, ← hexpectation] at hexpectation'
    obtain rfl : other = check := by
      cases other
      cases check
      exact congrArg₂ SessionCheck.mk hsame hexpectation'
    exact hother

namespace RecoveryPlanner

/-! ### The leading closed days -/

/-- The check is of a date without a session. -/
def isClosed (check : SessionCheck) : Bool := decide (check.expectation = .noSession)

/-- Checks that are strictly sorted by their dates are determined by their members. -/
private theorem eq_of_strict {cs cs' : List SessionCheck}
    (h : (cs.map SessionCheck.sessionDate).Pairwise (· < ·))
    (h' : (cs'.map SessionCheck.sessionDate).Pairwise (· < ·)) (hmem : ∀ c, c ∈ cs ↔ c ∈ cs') :
    cs = cs' := by
  rw [List.pairwise_map] at h h'
  have hnodup : cs.Nodup := h.imp fun hlt heq => absurd (heq ▸ hlt) (lt_irrefl _)
  have hnodup' : cs'.Nodup := h'.imp fun hlt heq => absurd (heq ▸ hlt) (lt_irrefl _)
  refine ((List.perm_ext_iff_of_nodup hnodup hnodup').mpr hmem).eq_of_pairwise
    (fun a b _ _ hab hba => ?_) h h'
  exact absurd (hab.trans hba) (lt_irrefl _)

/-- The dates with an expectation among the leading closed days and after them. -/
theorem datesOf_closed (expectation : SessionExpectation) (checks : List SessionCheck) :
    datesOf expectation checks =
      datesOf expectation (checks.takeWhile isClosed) ++
        datesOf expectation (checks.dropWhile isClosed) := by
  simp only [datesOf]
  rw [← List.map_append, ← List.filter_append, List.takeWhile_append_dropWhile]

/-- A leading closed day needs no work. -/
theorem datesOf_takeWhile {expectation : SessionExpectation} (h : expectation ≠ .noSession)
    (checks : List SessionCheck) : datesOf expectation (checks.takeWhile isClosed) = [] := by
  rw [datesOf, List.map_eq_nil_iff, List.filter_eq_nil_iff]
  intro check hcheck hexpectation
  have hclosed : isClosed check = true := List.mem_takeWhile_imp hcheck
  exact h ((of_decide_eq_true hexpectation).symm.trans (of_decide_eq_true hclosed))

/-- A cursor does not move again. -/
theorem nextCursor_dropWhile (last : Option Date) (checks : List SessionCheck) :
    nextCursor last (checks.dropWhile isClosed) = last := by
  have hnil : ((checks.dropWhile isClosed).takeWhile fun c =>
      decide (c.expectation = .noSession)) = [] := by
    induction checks with
    | nil => rfl
    | cons check rest ih =>
        by_cases hclosed : isClosed check = true
        · rw [List.dropWhile_cons_of_pos hclosed]
          exact ih
        · rw [List.dropWhile_cons_of_neg hclosed]
          exact List.takeWhile_cons_of_neg hclosed
  rw [nextCursor, hnil]
  rfl

/-- The checks after the leading closed days are those after the last such day. -/
theorem mem_dropWhile_iff {checks : List SessionCheck}
    (hsorted : (checks.map SessionCheck.sessionDate).Pairwise (· < ·)) {final : SessionCheck}
    (hfinal : (checks.takeWhile isClosed).getLast? = some final) {check : SessionCheck} :
    check ∈ checks.dropWhile isClosed ↔
      check ∈ checks ∧ final.sessionDate < check.sessionDate := by
  obtain ⟨front, hfront⟩ := List.getLast?_eq_some_iff.mp hfinal
  have hsplit := List.takeWhile_append_dropWhile (p := isClosed) (l := checks)
  rw [List.pairwise_map, ← hsplit, List.pairwise_append] at hsorted
  have hmem : final ∈ checks.takeWhile isClosed := List.mem_of_getLast? hfinal
  constructor
  · intro hcheck
    exact ⟨(List.dropWhile_sublist _).subset hcheck, hsorted.2.2 final hmem check hcheck⟩
  · rintro ⟨hcheck, hlt⟩
    rw [← hsplit] at hcheck
    rcases List.mem_append.mp hcheck with hlead | hrest
    · -- The last of the leading days is not before any of them.
      have hle : check.sessionDate ≤ final.sessionDate := by
        rw [hfront] at hlead hsorted
        rcases List.mem_append.mp hlead with hbefore | hlast
        · exact ((List.pairwise_append.mp hsorted.1).2.2 check hbefore final
            (List.mem_singleton_self _)).le
        · exact (List.mem_singleton.mp hlast) ▸ le_rfl
      exact absurd hlt (not_lt.mpr hle)
    · exact hrest

/-- The leading closed days are those before which every day is closed. -/
theorem mem_leading_iff {answer : List SessionCheck} {first final : Date}
    {classify : Date → SessionExpectation} (h : ClassifiesEach answer first.ordinal final)
    (hclassify : ∀ check ∈ answer, check.expectation = classify check.sessionDate) {d : Date} :
    d ∈ ((inOrder answer).takeWhile isClosed).map SessionCheck.sessionDate ↔
      first ≤ d ∧ d ≤ final ∧ ∀ d', first ≤ d' → d' ≤ d → classify d' = .noSession := by
  have hsorted := inOrder_strict h.once
  have hsplit := List.takeWhile_append_dropWhile (p := isClosed) (l := inOrder answer)
  rw [List.pairwise_map, ← hsplit, List.pairwise_append] at hsorted
  have hmem : ∀ {check}, check ∈ inOrder answer ↔ _ := fun {check} =>
    mem_inOrder.trans (h.mem_answer_iff hclassify)
  constructor
  · intro hd
    obtain ⟨check, hlead, rfl⟩ := List.mem_map.mp hd
    obtain ⟨hlow, hhigh, -⟩ := hmem.mp ((List.takeWhile_sublist _).subset hlead)
    refine ⟨hlow, hhigh, fun d' hlow' hle => ?_⟩
    have hcheck' : ⟨d', classify d'⟩ ∈ inOrder answer := hmem.mpr ⟨hlow', hle.trans hhigh, rfl⟩
    rw [← hsplit] at hcheck'
    rcases List.mem_append.mp hcheck' with hlead' | hrest'
    · have hclosed : isClosed ⟨d', classify d'⟩ = true := List.mem_takeWhile_imp hlead'
      exact of_decide_eq_true hclosed
    · exact absurd (hsorted.2.2 check hlead _ hrest') (not_lt.mpr hle)
  · rintro ⟨hlow, hhigh, hall⟩
    have hcheck : ⟨d, classify d⟩ ∈ inOrder answer := hmem.mpr ⟨hlow, hhigh, rfl⟩
    rw [← hsplit] at hcheck
    rcases List.mem_append.mp hcheck with hlead | hrest
    · exact List.mem_map_of_mem hlead
    · -- The first day after the leading ones is not closed, and not after this one.
      have hne := List.ne_nil_of_mem hrest
      have hhead := List.head_dropWhile_not isClosed hne
      obtain ⟨hlow', -, hexpectation⟩ := hmem.mp ((List.dropWhile_sublist _).subset
        (List.head_mem hne))
      have hle : (((inOrder answer).dropWhile isClosed).head hne).sessionDate ≤ d := by
        rw [← List.cons_head_tail hne] at hrest hsorted
        rcases List.mem_cons.mp hrest with heq | htail
        · exact heq ▸ le_rfl
        · exact ((List.pairwise_cons.mp hsorted.2.1).1 _ htail).le
      have hopen := of_decide_eq_false hhead
      exact absurd (hexpectation.trans (hall _ hlow' hle)) hopen

/-- **The second answer is the first one after its leading closed days.** -/
theorem inOrder_eq_dropWhile {answer answer' : List SessionCheck} {first next today : Date}
    {classify : Date → SessionExpectation} (h : ClassifiesEach answer first.ordinal today)
    (hclassify : ∀ check ∈ answer, check.expectation = classify check.sessionDate)
    (h' : ClassifiesEach answer' next.ordinal today)
    (hclassify' : ∀ check ∈ answer', check.expectation = classify check.sessionDate)
    {final : SessionCheck}
    (hfinal : ((inOrder answer).takeWhile isClosed).getLast? = some final)
    (hnext : final.sessionDate.addDays 1 = some next) :
    inOrder answer' = (inOrder answer).dropWhile isClosed := by
  have hsorted := inOrder_strict h.once
  refine eq_of_strict (inOrder_strict h'.once)
    (hsorted.sublist ((List.dropWhile_sublist _).map _)) fun check => ?_
  rw [mem_dropWhile_iff hsorted hfinal, mem_inOrder, mem_inOrder, h.mem_answer_iff hclassify,
    h'.mem_answer_iff hclassify']
  have hlow := ((h.mem_answer_iff hclassify).mp (mem_inOrder.mp
    ((List.takeWhile_sublist _).subset (List.mem_of_getLast? hfinal)))).1
  have hday := Date.addDays_eq_some_iff.mp hnext
  simp only [Date.le_def, Date.lt_def] at hlow ⊢
  constructor
  · rintro ⟨hnext', hhigh, hexpectation⟩
    exact ⟨⟨by omega, hhigh, hexpectation⟩, by omega⟩
  · rintro ⟨⟨-, hhigh, hexpectation⟩, hlt⟩
    exact ⟨by omega, hhigh, hexpectation⟩

/-- No sessions, no chunks. -/
theorem chunks_nil {size : ℤ} {cs : List RecoveryChunk} (h : chunks size [] = .ok cs) : cs = [] :=
  List.eq_nil_iff_forall_not_mem.mpr fun c hc => by
    obtain ⟨group, hsub, hchunk⟩ := chunks_eq_ok h hc
    rw [List.sublist_nil.mp hsub] at hchunk
    exact absurd hchunk (by simp [chunkOf])

/-! ### The start of the second plan -/

section Start

variable {limits : RecoveryLimits} {last : Option Date} {today start : Date}

/-- A pending range that has a start. -/
theorem startDate_ok (h : startDate limits last today = .ok start) :
    Representable limits last today ∧ (start.ordinal : ℤ) = pendingFrom limits last today := by
  by_cases hrepr : Representable limits last today
  · obtain ⟨first, hfirst, hday⟩ := startDate_eq hrepr
    obtain rfl := Except.ok.inj (hfirst.symm.trans h)
    exact ⟨hrepr, hday⟩
  · rw [startDate_eq_error hrepr] at h
    exact absurd h (by simp)

/-- The pending range after a date of a pending range starts on the next day. -/
theorem startDate_after (h : startDate limits last today = .ok start) {n next : Date}
    (hn : start ≤ n) (hnext : n.addDays 1 = some next) :
    startDate limits (some n) today = .ok next := by
  obtain ⟨hrepr, hday⟩ := startDate_ok h
  have hrepr' : Representable limits (some n) today :=
    ⟨hrepr.1, fun l hl => ⟨next, by obtain rfl := Option.some.inj hl; exact hnext⟩⟩
  obtain ⟨first, hfirst, hday'⟩ := startDate_eq hrepr'
  have hnextDay := Date.addDays_eq_some_iff.mp hnext
  have hlow : (today.ordinal : ℤ) - limits.maxLookbackDays ≤ start.ordinal := by
    rw [hday]
    cases last <;> simp only [pendingFrom] <;> omega
  have hsame : first = next := Date.ext (by
    rw [Date.le_def] at hn
    simp only [pendingFrom] at hday'
    omega)
  rw [hfirst, hsame]

/-- There is no pending range after the last representable date. -/
theorem startDate_final {n : Date} (hn : n.ordinal = maxOrdinal) :
    startDate limits (some n) today = .error .overflow :=
  startDate_eq_error fun hrepr => by
    obtain ⟨next, hnext⟩ := hrepr.2 n rfl
    have hday := Date.addDays_eq_some_iff.mp hnext
    have hmax := next.le_max
    omega

end Start

end RecoveryPlanner

/-! ### Planning again -/

open RecoveryPlanner

section Resume

variable {calendar : Calendar} {limits : Option RecoveryLimits} {assetClass : AssetClass}
  {venue : String} {mic : Option String} {last : Option Date} {today : Date} {p : RecoveryPlan}
  {classify : Date → SessionExpectation}

/-- **Planning again from the cursor loses nothing**: on the same day and for a calendar that
classifies each date once and consistently, the plan from the cursor of a plan has the same
chunks, the same waiting dates and the same cursor, and skips the same dates but the leading ones
without a session. If the cursor is the last representable date, planning again raises. -/
theorem plan_resume (hcalendar : calendar.Classifies assetClass venue mic classify)
    (hplan : plan calendar limits assetClass venue mic last today = .ok p) :
    ((∀ n ∈ p.nextCursor, n.ordinal ≠ maxOrdinal) →
      ∃ q leading, plan calendar limits assetClass venue mic p.nextCursor today = .ok q ∧
        q.chunks = p.chunks ∧ q.waitingForPublication = p.waitingForPublication ∧
        p.skippedNoSession = leading ++ q.skippedNoSession ∧
        (∀ d, d ∈ leading ↔ pendingFrom (limits.getD .default) last today ≤ d.ordinal ∧
          d ≤ today ∧ ∀ d' : Date, pendingFrom (limits.getD .default) last today ≤ d'.ordinal →
            d' ≤ d → classify d' = .noSession) ∧
        q.nextCursor = p.nextCursor) ∧
    ((∃ n ∈ p.nextCursor, n.ordinal = maxOrdinal) →
      plan calendar limits assetClass venue mic p.nextCursor today = .error .overflow) := by
  refine ⟨fun hcursor => ?_, fun ⟨n, hn, hmax⟩ => ?_⟩
  swap
  · rw [show p.nextCursor = some n from hn, plan, startDate_final hmax]
    rfl
  obtain ⟨start, hstart, hcase⟩ := plan_cases hplan
  have hday := (startDate_ok hstart).2
  rcases hcase with ⟨hlt, rfl⟩ | ⟨hle, answer, cs, hcall, hchunks, rfl⟩
  · -- Nothing is pending, and the cursor has not moved.
    refine ⟨_, [], hplan, rfl, rfl, rfl, fun d => iff_of_false List.not_mem_nil ?_, rfl⟩
    rintro ⟨hlow, hhigh, -⟩
    rw [Date.le_def] at hhigh
    rw [Date.lt_def] at hlt
    omega
  · obtain ⟨answer', hcall', heach, hclassify⟩ := hcalendar start today (not_lt.mp hle)
    obtain rfl := Except.ok.inj (hcall'.symm.trans hcall)
    have hleading : ∀ d, d ∈ datesOf .noSession ((inOrder answer').takeWhile isClosed) ↔
        pendingFrom (limits.getD .default) last today ≤ d.ordinal ∧ d ≤ today ∧
          ∀ d' : Date, pendingFrom (limits.getD .default) last today ≤ d'.ordinal → d' ≤ d →
            classify d' = .noSession := by
      intro d
      have hall : ∀ check ∈ (inOrder answer').takeWhile isClosed,
          decide (check.expectation = .noSession) = true := fun check hcheck =>
        List.mem_takeWhile_imp (p := isClosed) hcheck
      rw [datesOf, List.filter_eq_self.mpr hall, mem_leading_iff heach hclassify, ← hday]
      simp only [Nat.cast_le, ← Date.le_def]
    have hsame : ∀ {expectation}, expectation ≠ .noSession →
        datesOf expectation (inOrder answer') =
          datesOf expectation ((inOrder answer').dropWhile isClosed) := fun {expectation} hne => by
      rw [datesOf_closed, datesOf_takeWhile hne, List.nil_append]
    cases hfinal : ((inOrder answer').takeWhile isClosed).getLast? with
    | none =>
        -- The first date is not closed: the second call is the first one.
        have hkeep : nextCursor last (inOrder answer') = last := by
          rw [nextCursor]
          exact congrArg (fun o : Option SessionCheck => (o.map SessionCheck.sessionDate).or last)
            hfinal
        simp only [hkeep] at hplan ⊢
        refine ⟨_, _, hplan, rfl, rfl, ?_, hleading, rfl⟩
        rw [List.getLast?_eq_none_iff.mp hfinal]
        rfl
    | some final =>
        have hmove : nextCursor last (inOrder answer') = some final.sessionDate := by
          rw [nextCursor]
          exact congrArg (fun o : Option SessionCheck => (o.map SessionCheck.sessionDate).or last)
            hfinal
        have hmem : final ∈ answer' := mem_inOrder.mp
          ((List.takeWhile_sublist _).subset (List.mem_of_getLast? hfinal))
        obtain ⟨hlow, -⟩ := (heach.mem_answer_iff hclassify).mp hmem
        have hnotMax := hcursor final.sessionDate hmove
        obtain ⟨next, hnext⟩ : ∃ next, final.sessionDate.addDays 1 = some next := by
          refine Option.ne_none_iff_exists'.mp fun hnone => ?_
          have hbounds := Date.addDays_eq_none_iff.mp hnone
          have hmax := final.sessionDate.le_max
          omega
        have hstart' := startDate_after hstart hlow hnext
        rw [hsame (by simp)] at hchunks
        simp only [hmove]
        by_cases hlt : today < next
        · -- Every pending date is a leading one.
          have hrest : (inOrder answer').dropWhile isClosed = [] := by
            refine List.eq_nil_iff_forall_not_mem.mpr fun check hcheck => ?_
            obtain ⟨hmem', hafter⟩ := (mem_dropWhile_iff (inOrder_strict heach.once) hfinal).mp hcheck
            obtain ⟨-, hhigh, -⟩ := (heach.mem_answer_iff hclassify).mp (mem_inOrder.mp hmem')
            have hnextDay := Date.addDays_eq_some_iff.mp hnext
            simp only [Date.le_def, Date.lt_def] at hhigh hafter hlt
            omega
          rw [hrest] at hchunks
          refine ⟨_, _, plan_of_lt hstart' hlt, (chunks_nil hchunks).symm, ?_, ?_, hleading, rfl⟩
          · rw [hsame (by simp), hrest]
            rfl
          · rw [datesOf_closed, hrest]
            rfl
        · obtain ⟨answer₂, hcall₂, heach₂, hclassify₂⟩ := hcalendar next today (not_lt.mp hlt)
          have hrest := inOrder_eq_dropWhile heach hclassify heach₂ hclassify₂ hfinal hnext
          rw [← hrest] at hchunks
          refine ⟨_, _, plan_of_answer hstart' hlt hcall₂ hchunks, rfl, ?_, ?_, hleading, ?_⟩
          · rw [hsame (by simp), hrest]
          · rw [datesOf_closed, hrest]
          · rw [hrest]
            exact nextCursor_dropWhile _ _

end Resume

/-- A plan that starts on a weekend, and the plan from its cursor. -/
theorem plan_resume_weekend :
    let classify : Date → SessionExpectation := fun d =>
      if d.weekday < 5 then .expectedPublished else .noSession
    let calendar := Calendar.ofClassification classify
    let today : Date := ⟨739618, by decide, by decide⟩
    ∃ p q, plan calendar (some ⟨6, 2⟩) .equity "X" none none today = .ok p ∧
      plan calendar (some ⟨6, 2⟩) .equity "X" none p.nextCursor today = .ok q ∧
      q.chunks = p.chunks ∧ p.nextCursor ≠ none := by
  intro classify calendar today
  have hplan : ∃ p, plan calendar (some ⟨6, 2⟩) .equity "X" none none today = .ok p ∧
      (∀ n ∈ p.nextCursor, n.ordinal ≠ maxOrdinal) ∧ p.nextCursor ≠ none := ⟨_, rfl, by decide⟩
  obtain ⟨p, hp, hcursor, hne⟩ := hplan
  obtain ⟨q, -, hq, hchunks, -⟩ := (plan_resume
    (Calendar.ofClassification_classifies classify .equity "X" none) hp).1 hcursor
  exact ⟨p, q, hp, hq, hchunks, hne⟩

/-- **There is no plan from the last representable date**, although one leads there. -/
theorem plan_resume_overflow :
    ¬ ∀ (calendar : Calendar) (classify : Date → SessionExpectation) (limits : RecoveryLimits)
      (assetClass : AssetClass) (venue : String) (mic : Option String) (last : Option Date)
      (today : Date) (p : RecoveryPlan),
      0 ≤ limits.maxLookbackDays → 1 ≤ limits.maxSessionsPerChunk →
      calendar.Classifies assetClass venue mic classify →
      plan calendar (some limits) assetClass venue mic last today = .ok p →
      ∃ q, plan calendar (some limits) assetClass venue mic p.nextCursor today = .ok q ∧
        q.chunks = p.chunks ∧ q.waitingForPublication = p.waitingForPublication ∧
        q.nextCursor = p.nextCursor := by
  intro hall
  let final : Date := ⟨maxOrdinal, by decide, le_rfl⟩
  let calendar := Calendar.ofClassification fun _ => .noSession
  have hplan : plan calendar (some ⟨0, 20⟩) .equity "X" none none final =
      .ok ⟨[], [], [final], some final⟩ := by decide +kernel
  obtain ⟨q, hq, -⟩ := hall calendar _ ⟨0, 20⟩ .equity "X" none none final _ (by decide)
    (by decide) (Calendar.ofClassification_classifies _ .equity "X" none) hplan
  rw [plan, startDate_final (n := final) rfl] at hq
  exact absurd hq (by simp [bind, Except.bind])

end MarketRelay
