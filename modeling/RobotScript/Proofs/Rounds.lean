import RobotScript.Proofs.Counting
import RobotScript.Proofs.PassEnds

/-!
# Rounds of the cycle

A loop without an action is left after one pass, and so is every loop inside of
it.  A loop with an action is never left.  So an execution goes down from one
loop with an action into the next, and ends up in one that has no other such
loop inside; only this one ever starts over.  Its actions are the cycle of the
course, and what has been performed on the way down is the lead.

The invariant is `Poised`: what holds of the stack between two attempts, the
count of `Counted` among it.  From it the number of attempts tells when the
innermost loop starts over, and which iteration that is.

## Main results

* `Poised.walk` — what an attempt preserves.
* `Poised.begun` — the iteration that is begun on the way to the next action.
* `Poised.due`, `Poised.not_due` — when this is.
* `Poised.begunTo_succ` — the iterations of one more attempt.
-/

namespace RobotScript

open Statement (abandonmentsList actionCountList courseList Ends
  roundDepthList)

/-! ## Iterations in a journal -/

namespace Message

/-- The depth and the number of the iteration that a message says is begun. -/
def begun? : Message → Option (Nat × UInt64)
  | .iterationBegun depth iteration => some (depth, iteration)
  | _ => none

theorem begun?_eq_some_iff {m : Message} {d : Nat} {iteration : UInt64} :
    m.begun? = some (d, iteration) ↔ m = .iterationBegun d iteration := by
  cases m <;> simp [begun?]

theorem mem_filterMap_begun? {ms : List Message} {d : Nat}
    {iteration : UInt64} :
    (d, iteration) ∈ ms.filterMap begun? ↔
      .iterationBegun d iteration ∈ ms := by
  simp [List.mem_filterMap, begun?_eq_some_iff]

/-- Loops that are left begin no iteration. -/
theorem filterMap_begun?_of_abandoned {ms : List Message}
    (h : ∀ m ∈ ms, ∃ d, m = .loopAbandoned d) : ms.filterMap begun? = [] := by
  rw [List.filterMap_eq_nil_iff]
  intro m hm
  obtain ⟨d, rfl⟩ := h m hm
  rfl

end Message

/-! ## Between two attempts -/

/-- Frames between two attempts of an execution, `n` of which have been made,
when the innermost frame has completed `k` passes.  Before the first attempt
the innermost frame is that of the program; later it is where the last action
was taken. -/
structure Poised (p : Program) (n k : Nat) (f : Frame) (below : List Frame) :
    Prop where
  nested : Nested p.statements (f :: below)
  clear : f.Clear
  live : f.repeats = true →
    f.productive = true ∧ actionCountList f.statements ≠ 0
  acted : k ≠ 0 → actionCountList (f.statements.take f.next) ≠ 0
  counted : Counted n k f below

theorem poised_start (p : Program) :
    Poised p 0 0 (Frame.once p.statements) [] where
  nested := Execution.nested_start p
  clear := Frame.clear_of_next_eq_zero rfl
  live := nofun
  acted h := absurd rfl h
  counted := ⟨nofun, rfl, fun h => absurd rfl h, by simp [Frame.once,
    actionsBelow, actionCountList]⟩

theorem Rests.poised {p : Program} {n k : Nat} {a : Action} {f : Frame}
    {below : List Frame} (h : Rests p a f below)
    (hcounted : Counted n k f below) : Poised p n k f below where
  nested := h.nested
  clear := h.clear
  live _ := ⟨h.productive f List.mem_cons_self, h.actionCountList_ne_zero⟩
  acted _ := by
    obtain ⟨hpos, hget⟩ := Frame.taken?_eq_some_iff.1 h.taken
    have htake := Statement.actionCountList_take_succ hget
    rw [Nat.sub_add_cancel hpos, Statement.actionCount] at htake
    omega
  counted := hcounted

/-- The way to an action ends between two attempts. -/
theorem Counted.poised_of_leads {p : Program} {n k : Nat} {a : Action}
    {f : Frame} {below frames : List Frame} (h : Counted n k f below)
    (hnested : Nested p.statements (f :: below)) (hclear : f.Clear)
    (hleads : f.Leads a frames) :
    ∃ f' below' k', (frames ++ below).map Frame.markProductive =
      f' :: below' ∧ Poised p (n + 1) k' f' below' := by
  obtain ⟨f', below', hframes, hrests⟩ := Rests.of_leads hnested hclear hleads
  obtain ⟨g, above, k', hcons, hg⟩ := hleads.counted below hclear h
  have hmarked := hg.map_markProductive
  rw [hcons, List.map_cons] at hframes
  obtain ⟨rfl, rfl⟩ := List.cons.inj hframes
  exact ⟨_, _, k', by rw [hcons, List.map_cons], hrests.poised hmarked⟩

/-- A pass with an action left begins no iteration. -/
theorem dead_of_begun {f : Frame} {below : List Frame} {d : Nat}
    {iteration : UInt64}
    (h : .iterationBegun d iteration ∈ walkJournal (f :: below)) :
    actionCountList (f.statements.drop f.next) = 0 := by
  by_cases hlive : actionCountList (f.statements.drop f.next) = 0
  · exact hlive
  · obtain ⟨a, frames, hleads⟩ := Frame.exists_leads hlive
    obtain ⟨d', habandoned⟩ := hleads.abandons below _ h
    cases habandoned

namespace Poised

variable {p : Program} {n k : Nat} {a : Action} {f : Frame}
  {below after : List Frame}

/-- A pass with no action left has gone through all statements of a frame that
matter. -/
theorem ends_of_dead (h : Poised p n k f below)
    (hdead : actionCountList (f.statements.drop f.next) = 0) :
    Ends f.statements :=
  Statement.ends_take_drop h.clear (Statement.ends_of_actionCountList hdead)

/-- A loop that starts over has been counted once more. -/
theorem counted_rewind (h : Poised p n k f below)
    (hdead : actionCountList (f.statements.drop f.next) = 0) :
    Counted n (k + 1) f.rewind below := by
  have hsplit := f.actionCountList_take_add_drop
  have hcount := h.counted.count
  refine ⟨h.counted.entered, ?_, fun _ => h.ends_of_dead hdead, ?_⟩
  · show f.iteration + 1 = .ofNat (k + 1)
    rw [h.counted.passes, UInt64.ofNat_add]
    rfl
  · show n = actionsBelow below + (k + 1) * actionCountList f.statements + 0
    rw [Nat.succ_mul]
    omega

/-- **From one attempt to the next.** -/
theorem walk (h : Poised p n k f below)
    (hwalk : RobotScript.walk (f :: below) = some (a, after)) :
    ∃ f' below' k', after = f' :: below' ∧ Poised p (n + 1) k' f' below' := by
  rcases walk_cases hwalk h.nested.below_eq_nil h.live with hahead | hover
  · obtain ⟨frames, hleads, rfl⟩ := hahead
    exact h.counted.poised_of_leads h.nested h.clear hleads
  · obtain ⟨_, hbegun, frames, hleads, rfl⟩ := hover
    have hcounted := h.counted_rewind (dead_of_begun hbegun)
    exact hcounted.poised_of_leads
      (h.nested.exchange rfl rfl (Nat.zero_le _))
      (Frame.clear_of_next_eq_zero rfl) hleads

/-- **The iteration that is begun** on the way to the next action: there is one
exactly if the innermost frame is a loop and the rest of its pass has no
action. -/
theorem begun (h : Poised p n k f below) :
    (walkJournal (f :: below)).filterMap Message.begun? =
      if f.repeats = true ∧
          actionCountList (f.statements.drop f.next) = 0 then
        [(below.length + 1, f.iteration + 1)]
      else [] := by
  by_cases hdead : actionCountList (f.statements.drop f.next) = 0
  · have hrest : f.statements.drop f.next = f.statements.drop f.next ++ [] :=
      (List.append_nil _).symm
    have hpass := passes_list hdead below hrest
    have hend := Frame.advance?_of_drop_nil (Frame.drop_skip hrest)
    have hleft : (abandonmentsList (below.length + 1)
        (f.statements.drop f.next)).filterMap Message.begun? = [] :=
      Message.filterMap_begun?_of_abandoned
        fun m => Statement.abandoned_of_mem_list
    by_cases hrepeats : f.repeats = true
    · obtain ⟨hproductive, hacts⟩ := h.live hrepeats
      have hover := hpass.trans
        (Passes.one (Moves.rewind below hend hrepeats hproductive))
      obtain ⟨a, frames, hleads⟩ : ∃ a frames, f.rewind.Leads a frames :=
        Frame.exists_leads hacts
      have hlater := Message.filterMap_begun?_of_abandoned
        (hleads.abandons below)
      have hrewind : walkJournal
          ((f.skip (f.statements.drop f.next).length).rewind :: below) =
          walkJournal (f.rewind :: below) := rfl
      rw [if_pos ⟨hrepeats, hdead⟩, hover.walkJournal_eq, hrewind,
        List.filterMap_append, List.filterMap_append, hleft, hlater]
      rfl
    · have honce : f.repeats = false := by simpa using hrepeats
      have hleave := hpass.trans
        (Passes.one (Moves.leave below hend honce))
      obtain rfl := h.nested.below_eq_nil honce
      rw [if_neg (fun hand => hrepeats hand.1), hleave.walkJournal_eq,
        List.filterMap_append, List.filterMap_append, hleft, walkJournal,
        walkJournalFrom]
      rfl
  · obtain ⟨a, frames, hleads⟩ := Frame.exists_leads hdead
    rw [if_neg (fun hand => hdead hand.2)]
    exact Message.filterMap_begun?_of_abandoned (hleads.abandons below)

/-- The course and the depth of the program, seen from the innermost frame. -/
theorem around (h : Poised p n k f below) :
    ∃ us, us.length = actionsBelow below ∧
      p.course = (⟨us, []⟩ : Course).andThen f.whole ∧
      p.roundDepth = below.length + roundDepthList f.statements :=
  h.nested.around (fun g hg => (h.counted.entered g hg).2)
    (fun hrepeats => (h.live hrepeats).2)

/-- The cycle of the course is what a loop without another one to be caught in
repeats. -/
theorem caught_course (h : Poised p n k f below)
    (hrepeats : f.repeats = true) (hends : Ends f.statements) :
    p.course.lead.length = actionsBelow below ∧
      p.course.cycle.length = actionCountList f.statements ∧
      p.roundDepth = below.length := by
  obtain ⟨us, hlength, hcourse, hround⟩ := h.around
  have hwhole : f.whole = ⟨[], Statement.actionsList f.statements⟩ := by
    rw [Frame.whole, if_pos hrepeats, Statement.courseList_of_ends hends]
    rfl
  rw [hwhole] at hcourse
  refine ⟨?_, ?_, ?_⟩
  · rw [hcourse, Course.lead_andThen, List.append_nil, hlength]
  · rw [hcourse, Course.cycle_andThen, Statement.length_actionsList]
  · rw [hround, Statement.roundDepthList_of_ends hends, Nat.add_zero]

/-- **When an iteration is begun**, the loop has been gone through as often as
its number says. -/
theorem due (h : Poised p n k f below) (hrepeats : f.repeats = true)
    (hdead : actionCountList (f.statements.drop f.next) = 0) :
    p.course.cycle ≠ [] ∧ p.roundDepth = below.length ∧
      f.iteration + 1 = .ofNat (k + 1) ∧
      n = p.course.lead.length + (k + 1) * p.course.cycle.length := by
  obtain ⟨hlead, hcycle, hround⟩ :=
    h.caught_course hrepeats (h.ends_of_dead hdead)
  have hacts := (h.live hrepeats).2
  have hrewound := h.counted_rewind hdead
  refine ⟨?_, hround, hrewound.passes, ?_⟩
  · intro hnil
    rw [hnil, List.length_nil] at hcycle
    omega
  · rw [hlead, hcycle]
    exact hrewound.count

/-- In the middle of a pass the number of attempts is between two rounds of the
cycle. -/
theorem ne_round_of_live (h : Poised p n k f below)
    (hrepeats : f.repeats = true) (hends : Ends f.statements)
    (hlive : actionCountList (f.statements.drop f.next) ≠ 0) {j : Nat}
    (hj : 0 < j) :
    n ≠ p.course.lead.length + j * p.course.cycle.length := by
  intro hn
  obtain ⟨hlead, hlength, _⟩ := h.caught_course hrepeats hends
  have hcount := h.counted.count
  have hsplit := f.actionCountList_take_add_drop
  rw [hlead, hlength] at hn
  have hlt : j * actionCountList f.statements <
      (k + 1) * actionCountList f.statements := by
    rw [Nat.succ_mul]
    omega
  have hle : k * actionCountList f.statements ≤
      j * actionCountList f.statements := by omega
  obtain rfl : j = k := by
    have hbelow := Nat.lt_of_mul_lt_mul_right hlt
    have habove := Nat.le_of_mul_le_mul_right hle (by omega)
    omega
  -- The present pass would have to be without an action so far.
  have hacted := h.acted (by omega)
  omega

/-- As long as the loop that the program is caught in is ahead, the actions
attempted belong to the lead. -/
theorem le_lead (h : Poised p n k f below) (hends : ¬Ends f.statements) :
    n ≤ p.course.lead.length := by
  obtain rfl : k = 0 := by
    by_cases hpass : k = 0
    · exact hpass
    · exact absurd (h.counted.caught hpass) hends
  have hcount := h.counted.count
  obtain ⟨us, hlength, hcourse, _⟩ := h.around
  have hcycle : (courseList f.statements).cycle ≠ [] :=
    fun hnil => hends ((Statement.cycle_courseList_eq_nil_iff _).1 hnil)
  have hlead : actionsBelow below +
      actionCountList (f.statements.take f.next) ≤
        p.course.lead.length := by
    rw [hcourse, Frame.whole_of_cycle hcycle,
      ← List.take_append_drop f.next f.statements,
      Statement.courseList_append, Statement.courseList_of_ends h.clear,
      Course.lead_andThen, Course.lead_andThen, List.length_append,
      List.length_append, Statement.length_actionsList, hlength,
      List.take_append_drop]
    omega
  rw [Nat.zero_mul] at hcount
  omega

/-- **When none is begun**, the number of attempts does not complete a round of
the cycle. -/
theorem not_due (h : Poised p n k f below)
    (hnot : ¬(f.repeats = true ∧
      actionCountList (f.statements.drop f.next) = 0))
    (hcycle : p.course.cycle ≠ []) {j : Nat} (hj : 0 < j) :
    n ≠ p.course.lead.length + j * p.course.cycle.length := by
  by_cases hends : Ends f.statements
  · by_cases hrepeats : f.repeats = true
    · exact h.ne_round_of_live hrepeats hends
        (fun hdead => hnot ⟨hrepeats, hdead⟩) hj
    · obtain ⟨us, _, hcourse, _⟩ := h.around
      have honce : f.repeats = false := by simpa using hrepeats
      rw [hcourse, Course.cycle_andThen, Frame.whole, honce] at hcycle
      exact absurd ((Statement.cycle_courseList_eq_nil_iff _).2 hends) hcycle
  · have hlead := h.le_lead hends
    have hpos : 0 < j * p.course.cycle.length :=
      Nat.mul_pos hj (List.length_pos_iff.2 hcycle)
    omega

end Poised

/-! ## Rounds of the cycle -/

namespace Course

/-- How often the cycle has been begun again once `n` actions have been
attempted. -/
def restarts (c : Course) (n : Nat) : Nat :=
  (n - (c.lead.length + 1)) / c.cycle.length

/-- The attempt behind `k + 1` rounds begins another one. -/
theorem restarts_of_due {c : Course} {n k : Nat} (hcycle : c.cycle ≠ [])
    (h : n = c.lead.length + (k + 1) * c.cycle.length) :
    c.restarts n = k ∧ c.restarts (n + 1) = k + 1 := by
  have hpos : 0 < c.cycle.length := List.length_pos_iff.2 hcycle
  constructor
  · have hn : n - (c.lead.length + 1) =
        k * c.cycle.length + (c.cycle.length - 1) := by
      rw [h, Nat.succ_mul]
      omega
    rw [restarts, hn, Nat.mul_comm, Nat.mul_add_div hpos,
      Nat.div_eq_of_lt (by omega), Nat.add_zero]
  · have hn : n + 1 - (c.lead.length + 1) = (k + 1) * c.cycle.length := by
      omega
    rw [restarts, hn, Nat.mul_div_cancel _ hpos]

/-- Any other attempt does not. -/
theorem restarts_of_not_due {c : Course} {n : Nat}
    (h : c.cycle ≠ [] → ∀ k, 0 < k →
      n ≠ c.lead.length + k * c.cycle.length) :
    c.restarts (n + 1) = c.restarts n := by
  unfold restarts
  by_cases hcycle : c.cycle = []
  · rw [hcycle, List.length_nil, Nat.div_zero, Nat.div_zero]
  · by_cases hle : n ≤ c.lead.length
    · rw [show n + 1 - (c.lead.length + 1) = 0 by omega,
        show n - (c.lead.length + 1) = 0 by omega]
    · have hdvd : ¬c.cycle.length ∣ n - (c.lead.length + 1) + 1 := by
        rintro ⟨k, hk⟩
        rw [Nat.mul_comm] at hk
        refine h hcycle k (Nat.pos_of_ne_zero ?_) (by omega)
        rintro rfl
        omega
      rw [show n + 1 - (c.lead.length + 1) =
        n - (c.lead.length + 1) + 1 by omega]
      exact Nat.succ_div_of_not_dvd hdvd

end Course

/-- The iterations begun by the time `n` actions of a program have been
attempted, each with the depth of its loop. -/
def Program.begunTo (p : Program) (n : Nat) : List (Nat × UInt64) :=
  (List.range (p.course.restarts n)).map fun i =>
    (p.roundDepth + 1, .ofNat (i + 1))

/-- **An attempt and its iteration.** -/
theorem Poised.begunTo_succ {p : Program} {n k : Nat} {f : Frame}
    {below : List Frame} (h : Poised p n k f below) :
    p.begunTo (n + 1) =
      p.begunTo n ++ (walkJournal (f :: below)).filterMap Message.begun? := by
  rw [h.begun]
  split
  · next hdue =>
    obtain ⟨hcycle, hround, hnumber, hn⟩ := h.due hdue.1 hdue.2
    obtain ⟨hbefore, hafter⟩ := Course.restarts_of_due hcycle hn
    rw [Program.begunTo, Program.begunTo, hbefore, hafter, List.range_succ,
      List.map_append, hround, hnumber]
    rfl
  · next hnot =>
    rw [Program.begunTo, Program.begunTo,
      Course.restarts_of_not_due fun hcycle j hj => h.not_due hnot hcycle hj,
      List.append_nil]

end RobotScript
