import BleCapture.Proofs.Device.Signal
import BleCapture.Time.Duration
import BleCapture.Time.Ticker

/-!
# Status reports of a whole run

A ticker is called at instants that never go back, and reports when its interval has
passed since the last report. The window of a report begins where the one before it
ended, so reports keep their distance, and rates multiplied by the lengths of their
windows add up to the packets counted until the last report. The clock may end before
the interval does, and then no report is due any more.
-/

namespace BleCapture

-- ---------------------------------------------------------------------------
-- Instants
-- ---------------------------------------------------------------------------

namespace Instant

theorem after?_eq_some_iff {i j : Instant} {span : Duration} :
    i.after? span = some j ↔ j.nanos = i.nanos + span.nanos := by
  unfold after? ofNanos?
  constructor
  · intro h
    split at h <;> cases h
    rfl
  · intro h
    rw [← h]
    exact dif_pos j.lt

theorem after?_eq_none_iff {i : Instant} {span : Duration} :
    i.after? span = none ↔ limit ≤ i.nanos + span.nanos := by
  unfold after? ofNanos?
  split <;> simp_all

end Instant

-- ---------------------------------------------------------------------------
-- Rates
-- ---------------------------------------------------------------------------

theorem Duration.inSeconds_rat (d : Duration) :
    (d.inSeconds : ℚ) = (d.nanos : ℚ) / nanosPerSecond := by
  have hparts : nanosPerSecond * d.seconds + d.subsecond = d.nanos :=
    Nat.div_add_mod d.nanos nanosPerSecond
  have hne : (nanosPerSecond : ℚ) ≠ 0 := by decide
  show (d.seconds : ℚ) + (d.subsecond : ℚ) / (nanosPerSecond : ℚ) = _
  rw [← hparts, Nat.cast_add, Nat.cast_mul, add_div, mul_div_cancel_left₀ _ hne]

theorem Window.rate_mul_seconds {w : Window} (h : 0 < w.elapsed.nanos) :
    w.rate * ((w.elapsed.nanos : ℚ) / nanosPerSecond) = w.packets := by
  have hnanos : (w.elapsed.nanos : ℚ) ≠ 0 := by exact_mod_cast h.ne'
  have hne : (nanosPerSecond : ℚ) ≠ 0 := by decide
  rw [rate, if_neg h.ne', Duration.inSeconds_rat]
  exact div_mul_cancel₀ _ (div_ne_zero hnanos hne)

namespace Ticker

-- ---------------------------------------------------------------------------
-- Calls and reports
-- ---------------------------------------------------------------------------

/-- The instant of a call, and how many packets were counted until then. -/
structure Call where
  now : Instant
  total : Nat

/-- A call that was answered, and its answer. -/
structure Report extends Call where
  window : Window

def step (t : Ticker) (c : Call) : Ticker := (t.tick c.now c.total).2

def after (t : Ticker) (calls : List Call) : Ticker := calls.foldl step t

/-- The reports of a run, in order. -/
def reports (t : Ticker) : List Call → List Report
  | [] => []
  | c :: rest => ((t.tick c.now c.total).1.map (Report.mk c)).toList ++ reports (t.step c) rest

/-- The report of a call that is answered. -/
def report (t : Ticker) (c : Call) : Report :=
  ⟨c, ⟨c.total - t.lastTotal, c.now.since t.lastReport⟩⟩

def answered (t : Ticker) (c : Call) : Ticker :=
  { t with lastReport := c.now, lastTotal := c.total }

/-- There is a due instant, and it has come. -/
def Due (t : Ticker) (now : Instant) : Prop := ∃ due, t.nextDue = some due ∧ due ≤ now

/-- A clock that shows `now` has got as far as the due instant. -/
theorem due_iff (t : Ticker) (now : Instant) :
    t.Due now ↔ t.lastReport.nanos + t.interval.nanos ≤ now.nanos := by
  constructor
  · rintro ⟨due, hdue, hle⟩
    rwa [← Instant.after?_eq_some_iff.mp hdue]
  · intro h
    exact ⟨⟨_, h.trans_lt now.lt⟩, Instant.after?_eq_some_iff.mpr rfl, h⟩

/-- Everything that a call can do, when it does not come before the last report. -/
theorem tick_cases (t : Ticker) (c : Call) (h : t.lastReport ≤ c.now) :
    ¬ t.Due c.now ∧ t.tick c.now c.total = (none, t) ∨
      t.Due c.now ∧ t.tick c.now c.total = (some (t.report c).window, t.answered c) := by
  have hle : t.lastReport.nanos ≤ c.now.nanos := h
  simp only [due_iff, tick, Instant.since]
  by_cases hdue : c.now.nanos - t.lastReport.nanos < t.interval.nanos
  · exact .inl ⟨by omega, if_pos hdue⟩
  · exact .inr ⟨by omega, if_neg hdue⟩

-- ---------------------------------------------------------------------------
-- Calls in order
-- ---------------------------------------------------------------------------

/-- The calls come one after the other, and none before the last report. -/
def Precedes (t : Ticker) (calls : List Call) : Prop :=
  (t.lastReport :: calls.map Call.now).Pairwise (· ≤ ·)

/-- The totals never fall, nor below that of the last report. -/
def CountsUp (t : Ticker) (calls : List Call) : Prop :=
  (t.lastTotal :: calls.map Call.total).Pairwise (· ≤ ·)

section
variable {t : Ticker} {c : Call} {calls : List Call}

theorem Precedes.le (h : t.Precedes (c :: calls)) : t.lastReport ≤ c.now :=
  List.rel_of_pairwise_cons h List.mem_cons_self

theorem CountsUp.le (h : t.CountsUp (c :: calls)) : t.lastTotal ≤ c.total :=
  List.rel_of_pairwise_cons h List.mem_cons_self

/-- What a call does to the run: nothing, or one more report. -/
theorem Precedes.step_cases (h : t.Precedes (c :: calls)) :
    t.step c = t ∧ t.reports (c :: calls) = t.reports calls ∨
      t.Due c.now ∧ t.step c = t.answered c ∧
        t.reports (c :: calls) = t.report c :: (t.answered c).reports calls := by
  rcases t.tick_cases c h.le with ⟨-, htick⟩ | ⟨hdue, htick⟩
  · have hstep : t.step c = t := congrArg Prod.snd htick
    refine .inl ⟨hstep, ?_⟩
    rw [reports, hstep, htick]
    rfl
  · have hstep : t.step c = t.answered c := congrArg Prod.snd htick
    refine .inr ⟨hdue, hstep, ?_⟩
    rw [reports, hstep, htick]
    rfl

theorem Precedes.next (h : t.Precedes (c :: calls)) : (t.step c).Precedes calls := by
  rcases h.step_cases with ⟨hstep, -⟩ | ⟨-, hstep, -⟩ <;> rw [hstep]
  · exact h.sublist (.cons_cons _ (List.sublist_cons_self _ _))
  · exact h.of_cons

theorem CountsUp.next (hforward : t.Precedes (c :: calls)) (h : t.CountsUp (c :: calls)) :
    (t.step c).CountsUp calls := by
  rcases hforward.step_cases with ⟨hstep, -⟩ | ⟨-, hstep, -⟩ <;> rw [hstep]
  · exact h.sublist (.cons_cons _ (List.sublist_cons_self _ _))
  · exact h.of_cons

theorem Precedes.interval_step (h : t.Precedes (c :: calls)) :
    (t.step c).interval = t.interval := by
  rcases h.step_cases with ⟨hstep, -⟩ | ⟨-, hstep, -⟩ <;> rw [hstep]
  rfl

/-- Before every call of a run, all calls so far are made. -/
theorem Precedes.after_past {past : List Call} (h : t.Precedes (past ++ calls)) :
    (t.after past).Precedes calls ∧ (t.after past).interval = t.interval := by
  induction past generalizing t with
  | nil => exact ⟨h, rfl⟩
  | cons d past ih =>
    obtain ⟨hrest, hinterval⟩ := ih h.next
    exact ⟨hrest, hinterval.trans h.interval_step⟩

/-- The due instant is counted from the last report, or from the start. -/
theorem Precedes.lastReport_after (h : t.Precedes calls) :
    (t.after calls).lastReport =
      ((t.reports calls).map fun r => r.now).getLast?.getD t.lastReport := by
  induction calls generalizing t with
  | nil => rfl
  | cons c calls ih =>
    have hrest : (t.after (c :: calls)).lastReport = _ := ih h.next
    rcases h.step_cases with ⟨hstep, hreports⟩ | ⟨-, hstep, hreports⟩ <;>
      rw [hrest, hstep, hreports]
    rw [List.map_cons, List.getLast?_cons, Option.getD_some]
    rfl

-- ---------------------------------------------------------------------------
-- Windows
-- ---------------------------------------------------------------------------

/-- No two reports are closer than the interval, and the first is not closer than that
to the report before the run. -/
theorem Precedes.pairwise_reports (h : t.Precedes calls) :
    (t.lastReport :: (t.reports calls).map fun r => r.now).Pairwise
      fun earlier later => earlier.nanos + t.interval.nanos ≤ later.nanos := by
  induction calls generalizing t with
  | nil => exact List.pairwise_singleton _ _
  | cons c calls ih =>
    have hrest := ih h.next
    rcases h.step_cases with ⟨hstep, hreports⟩ | ⟨hdue, hstep, hreports⟩ <;>
      rw [hstep] at hrest <;> rw [hreports]
    · exact hrest
    · refine List.pairwise_cons.mpr ⟨?_, hrest⟩
      intro later hlater
      rcases List.mem_cons.mp hlater with rfl | hlater
      · exact (t.due_iff c.now).mp hdue
      · have hfar := List.rel_of_pairwise_cons hrest hlater
        exact (Nat.add_le_add_right h.le _).trans hfar

/-- The rates, each multiplied by the seconds since the report before or, for the first,
since `since`. -/
def packetsByRate (since : Instant) : List Report → ℚ
  | [] => 0
  | r :: rest =>
    r.window.rate * (((r.now.nanos : ℚ) - since.nanos) / nanosPerSecond) + packetsByRate r.now rest

theorem Precedes.packetsByRate_reports (h : t.Precedes calls) (htotals : t.CountsUp calls)
    (hpos : 0 < t.interval.nanos) :
    packetsByRate t.lastReport (t.reports calls) + t.lastTotal =
      ((((t.reports calls).map fun r => r.total).getLast?.getD t.lastTotal : ℕ) : ℚ) := by
  induction calls generalizing t with
  | nil => exact zero_add _
  | cons c calls ih =>
    have hrest := ih h.next (htotals.next h) (h.interval_step ▸ hpos)
    rcases h.step_cases with ⟨hstep, hreports⟩ | ⟨hdue, hstep, hreports⟩ <;>
      rw [hstep] at hrest <;> rw [hreports]
    · exact hrest
    · have hle : t.lastReport.nanos ≤ c.now.nanos := h.le
      have helapsed : 0 < c.now.nanos - t.lastReport.nanos := by
        have hlate := (t.due_iff c.now).mp hdue
        omega
      have hwindow : (t.report c).window.rate *
          (((c.now.nanos : ℚ) - t.lastReport.nanos) / nanosPerSecond) =
            (c.total : ℚ) - t.lastTotal := by
        rw [← Nat.cast_sub hle, ← Nat.cast_sub htotals.le]
        exact Window.rate_mul_seconds helapsed
      rw [packetsByRate, List.map_cons, List.getLast?_cons, Option.getD_some]
      refine Eq.trans ?_ hrest
      calc (t.report c).window.rate * (((c.now.nanos : ℚ) - t.lastReport.nanos) / nanosPerSecond) +
            packetsByRate c.now ((t.answered c).reports calls) + t.lastTotal
          = (c.total : ℚ) - t.lastTotal +
            packetsByRate c.now ((t.answered c).reports calls) + t.lastTotal := by rw [hwindow]
        _ = packetsByRate c.now ((t.answered c).reports calls) + c.total := by ring

end

/-- In a run, a call is answered exactly if there is a due instant and it has come. A call
that is not answered changes nothing; one that is makes the next report due an interval
later. There is no due instant exactly if the clock, which counts 2⁶³ seconds, does not
reach one interval after the last report, or after the start. Reports keep the interval
as their distance from each other and from the start. With a positive interval and totals
that never fall, the rates, each multiplied by the time that it covers, add up to the
total of the last report. -/
theorem reports_of_run (interval : Duration) (start : Instant) (calls : List Call)
    (hforward : (start :: calls.map Call.now).Pairwise (· ≤ ·)) :
    let t := startingAt interval start
    (∀ past c rest, calls = past ++ c :: rest →
      let before := t.after past
      let answer := before.tick c.now c.total
      (answer.1.isSome ↔ ∃ due, before.nextDue = some due ∧ due ≤ c.now) ∧
      (answer.1 = none → answer.2 = before) ∧
      (answer.1.isSome →
        ∀ due, answer.2.nextDue = some due ↔ due.nanos = c.now.nanos + interval.nanos)) ∧
    (∀ past rest, calls = past ++ rest →
      let last := ((t.reports past).map fun r => r.now).getLast?.getD start
      ((t.after past).nextDue = none ↔
        2 ^ 63 * nanosPerSecond ≤ last.nanos + interval.nanos)) ∧
    (start :: (t.reports calls).map fun r => r.now).Pairwise
      (fun earlier later => earlier.nanos + interval.nanos ≤ later.nanos) ∧
    (0 < interval.nanos → (calls.map Call.total).Pairwise (· ≤ ·) →
      packetsByRate start (t.reports calls) =
        ((((t.reports calls).map fun r => r.total).getLast?.getD 0 : ℕ) : ℚ)) := by
  intro t
  have hprecedes : t.Precedes calls := hforward
  refine ⟨?_, ?_, hprecedes.pairwise_reports, ?_⟩
  · rintro past c rest rfl before answer
    obtain ⟨hbefore, hinterval⟩ := hprecedes.after_past
    rcases before.tick_cases c hbefore.le with ⟨hearly, htick⟩ | ⟨hdue, htick⟩
    · have hanswer : answer = (none, before) := htick
      rw [hanswer]
      exact ⟨iff_of_false Bool.false_ne_true hearly, fun _ => rfl,
        fun h => absurd h Bool.false_ne_true⟩
    · have hanswer : answer = (some (before.report c).window, before.answered c) := htick
      rw [hanswer]
      refine ⟨iff_of_true rfl hdue, ?_, fun _ due => ?_⟩
      · intro h
        cases h
      · rw [nextDue, Instant.after?_eq_some_iff]
        exact Eq.congr_right (congrArg (fun d : Duration => c.now.nanos + d.nanos) hinterval)
  · rintro past rest rfl last
    obtain ⟨-, hinterval⟩ := hprecedes.after_past
    have hpast : t.Precedes past :=
      hprecedes.sublist (.cons_cons _ ((List.sublist_append_left past rest).map _))
    have hlast : (t.after past).lastReport = last := hpast.lastReport_after
    rw [nextDue, hlast, hinterval, Instant.after?_eq_none_iff]
    rfl
  · intro hpos htotals
    have hcounts : t.CountsUp calls := List.pairwise_cons.mpr ⟨fun _ _ => Nat.zero_le _, htotals⟩
    have hsum := hprecedes.packetsByRate_reports hcounts hpos
    rwa [show ((t.lastTotal : ℕ) : ℚ) = 0 from Nat.cast_zero, add_zero] at hsum

/-- Calls after 7, 11 and 12 seconds, the second of which comes too early for a report. -/
theorem reports_of_run_early_call :
    let interval := Duration.ofSeconds 5
    let at7 : Instant := ⟨7000000000, by decide⟩
    let at11 : Instant := ⟨11000000000, by decide⟩
    let at12 : Instant := ⟨12000000000, by decide⟩
    let t := startingAt interval .zero
    let calls : List Call := [⟨at7, 3⟩, ⟨at11, 4⟩, ⟨at12, 9⟩]
    (Instant.zero :: calls.map Call.now).Pairwise (· ≤ ·) ∧
      (calls.map Call.total).Pairwise (· ≤ ·) ∧
      ((t.after (calls.take 1)).tick at11 4).1 = none ∧
      ((t.reports calls).map fun r => (r.now, r.total)) = [(at7, 3), (at12, 9)] ∧
      packetsByRate .zero (t.reports calls) = 9 := by
  intro interval at7 at11 at12 t calls
  have hforward : (Instant.zero :: calls.map Call.now).Pairwise (· ≤ ·) := by decide
  have htotals : (calls.map Call.total).Pairwise (· ≤ ·) := by decide
  obtain ⟨hcalls, -, -, hsum⟩ := reports_of_run interval .zero calls hforward
  obtain ⟨hdue, -, -⟩ := hcalls [⟨at7, 3⟩] ⟨at11, 4⟩ [⟨at12, 9⟩] rfl
  have hearly : ¬ (t.after (calls.take 1)).Due at11 := by
    rw [due_iff]
    decide
  have hreports : (t.reports calls).map (fun r => (r.now, r.total)) = [(at7, 3), (at12, 9)] := by
    decide
  have htotal : ((t.reports calls).map fun r => r.total).getLast?.getD 0 = 9 := by decide
  refine ⟨hforward, htotals, ?_, hreports, ?_⟩
  · exact Option.not_isSome_iff_eq_none.mp (mt hdue.mp hearly)
  · rw [hsum (by decide) htotals, htotal, Nat.cast_ofNat]

/-- The text of an interval that is read, and that no clock reaches the end of: whenever it
starts, there is no instant at which the first report would be due. -/
theorem nextDue_eq_none_of_longest_interval :
    let interval := Duration.ofSeconds (2 ^ 63)
    Duration.parse "9223372036854775808" = .ok interval ∧
      ∀ start, (startingAt interval start).nextDue = none := by
  intro interval
  refine ⟨by decide +kernel, fun start => ?_⟩
  exact Instant.after?_eq_none_iff.mpr (Nat.le_add_left Instant.limit start.nanos)

end Ticker

end BleCapture
