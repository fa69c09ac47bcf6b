import Osis.Lab03.Changes

/-!
# The statistics of the children

`UpdateStat` writes the two members of `occurrence` one after the other, so an alarm may find
the first member of one pair with the second of the pair before. It still finds one of the
four pairs and is counted for this pair and no other. Each count on a line is the number of
alarms that its child has handled with the pair of the count in `occurrence`.
-/

namespace Osis.Lab03

open Concurrency

variable {state successor : State} {label : Label} {pid : Pid} {child child' : Child}

/-- The pair of the round before: there is none in the round after the fourth. -/
def Shows (counter : ℤ) (occurrence : Pair) : Prop :=
  counter = 0 ∧ (occurrence = ⟨0, 0⟩ ∨ occurrence = ⟨1, 1⟩) ∨
    Child.pattern (counter - 1) = some occurrence

/-- What `occurrence` and the counter of `UpdateStat` are between the steps of a child. -/
inductive Child.Showing (child : Child) : Prop where
  | outside (elsewhere : child.point ≠ .updateSecond)
      (shows : Shows child.counter child.occurrence) : Showing child
  | restart (between : child.point = .updateSecond) (counter_eq : child.counter = -1)
      (occurrence_eq : child.occurrence = ⟨1, 1⟩) : Showing child
  | torn {pair last : Pair} (between : child.point = .updateSecond)
      (next_pair : pattern child.counter = some pair) (last_pair : Shows child.counter last)
      (occurrence_eq : child.occurrence = ⟨pair.first, last.second⟩) : Showing child

section Showing

/-- Both members are bits. -/
def Pair.Bits (pair : Pair) : Prop :=
  (pair.first = 0 ∨ pair.first = 1) ∧ (pair.second = 0 ∨ pair.second = 1)

theorem bits_of_pattern {counter : ℤ} {pair : Pair} (found : Child.pattern counter = some pair) :
    pair.Bits := by
  unfold Child.pattern at found
  split_ifs at found <;> cases found <;> simp [Pair.Bits]

theorem Shows.bits {counter : ℤ} {pair : Pair} (shows : Shows counter pair) : pair.Bits := by
  rcases shows with ⟨-, rfl | rfl⟩ | found
  · simp [Pair.Bits]
  · simp [Pair.Bits]
  · exact bits_of_pattern found

theorem Child.Showing.bits (showing : child.Showing) : child.occurrence.Bits := by
  cases showing with
  | outside _ shows => exact shows.bits
  | restart _ _ occurrence_eq =>
      rw [occurrence_eq]
      simp [Pair.Bits]
  | torn _ next_pair last_pair occurrence_eq =>
      rw [occurrence_eq]
      exact ⟨(bits_of_pattern next_pair).1, last_pair.bits.2⟩

/-- Where there is no pair to write, the last one was `(1, 1)`. -/
theorem Shows.of_pattern_eq_none {counter : ℤ} {pair : Pair} (shows : Shows counter pair)
    (restarts : Child.pattern counter = none) : pair = ⟨1, 1⟩ := by
  rcases shows with ⟨rfl, -⟩ | found
  · cases restarts
  · unfold Child.pattern at found restarts
    split_ifs at found restarts <;> first | omega | (cases found; rfl)

theorem Child.Showing.updateFirst (shows : Shows child.counter child.occurrence)
    (point_eq : child.point = .updateFirst) : child.step.Showing := by
  have step_eq : child.step = { child.updateFirst with point := .updateSecond } := by
    simp only [Child.step, point_eq]
  rw [step_eq]
  cases found : Child.pattern child.counter with
  | none =>
      have updated : child.updateFirst = { child with counter := -1 } := by
        simp only [Child.updateFirst, found]
      rw [updated]
      exact .restart rfl rfl (shows.of_pattern_eq_none found)
  | some pair =>
      have updated : child.updateFirst =
          { child with occurrence := ⟨pair.first, child.occurrence.second⟩ } := by
        simp only [Child.updateFirst, found]
      rw [updated]
      exact .torn rfl found shows rfl

/-- `UpdateStat` ends with the pair of its round. -/
theorem Child.Showing.updateSecond (showing : child.Showing)
    (point_eq : child.point = .updateSecond) : child.step.Showing := by
  have step_eq : child.step = { child.updateSecond with point := .clearReceived } := by
    simp only [Child.step, point_eq]
  rw [step_eq]
  cases showing with
  | outside elsewhere => exact absurd point_eq elsewhere
  | restart _ counter_eq occurrence_eq =>
      have updated : child.updateSecond = { child with counter := child.counter + 1 } := by
        simp only [Child.updateSecond, counter_eq]
        rfl
      rw [updated]
      exact .outside (by simp) (.inl ⟨by simp [counter_eq], .inr occurrence_eq⟩)
  | @torn pair last _ next_pair _ occurrence_eq =>
      have updated : child.updateSecond =
          { child with occurrence := pair, counter := child.counter + 1 } := by
        simp only [Child.updateSecond, next_pair, occurrence_eq]
      rw [updated]
      refine .outside (by simp) (.inr ?_)
      simpa using next_pair

/-- Outside `UpdateStat` a step leaves `occurrence` and the counter alone. -/
theorem Child.step_elsewhere (not_first : child.point ≠ .updateFirst)
    (not_second : child.point ≠ .updateSecond) :
    child.step.counter = child.counter ∧ child.step.occurrence = child.occurrence ∧
      child.step.point ≠ .updateSecond := by
  unfold Child.step
  cases point : child.point with
  | updateFirst => exact absurd point not_first
  | updateSecond => exact absurd point not_second
  | testCanPrint | testReceived | testDenied => dsimp only; split <;> simp [nextRound]
  | _ => simp [nextRound]

theorem Child.Showing.step (showing : child.Showing) : child.step.Showing := by
  by_cases first : child.point = .updateFirst
  · cases showing with
    | outside _ shows => exact Showing.updateFirst shows first
    | restart between | torn between => simp [first] at between
  · by_cases second : child.point = .updateSecond
    · exact showing.updateSecond second
    · rcases step_elsewhere first second with ⟨counter_eq, occurrence_eq, elsewhere⟩
      cases showing with
      | restart between | torn between => exact absurd between second
      | outside _ shows =>
          refine .outside elsewhere ?_
          rw [counter_eq, occurrence_eq]
          exact shows

/-- What leaves the point, the counter and `occurrence` alone keeps what they show. -/
theorem Child.Showing.congr (showing : child.Showing) (point_eq : child'.point = child.point)
    (counter_eq : child'.counter = child.counter)
    (occurrence_eq : child'.occurrence = child.occurrence) : child'.Showing := by
  cases showing with
  | outside elsewhere shows =>
      refine .outside (point_eq ▸ elsewhere) ?_
      rw [counter_eq, occurrence_eq]
      exact shows
  | restart between restarts pair_eq =>
      exact .restart (point_eq.trans between) (counter_eq.trans restarts)
        (occurrence_eq.trans pair_eq)
  | torn between next_pair last_pair pair_eq =>
      refine .torn (point_eq.trans between) ?_ ?_ (occurrence_eq.trans pair_eq)
      · rw [counter_eq]
        exact next_pair
      · rw [counter_eq]
        exact last_pair

end Showing

section Counting

/-- The four counts. -/
structure Tally where
  c00 : ℕ
  c01 : ℕ
  c10 : ℕ
  c11 : ℕ
  deriving DecidableEq

/-- The counts that go with a number for each pair. -/
def Tally.meeting (count : Pair → ℕ) : Tally :=
  ⟨count ⟨0, 0⟩, count ⟨1, 0⟩, count ⟨0, 1⟩, count ⟨1, 1⟩⟩

/-- The occurrences that are counted. -/
def Tally.sum (tally : Tally) : ℕ := tally.c00 + tally.c01 + tally.c10 + tally.c11

def Child.tally (child : Child) : Tally := ⟨child.c00, child.c01, child.c10, child.c11⟩

/-- An alarm is counted for the pair it finds. -/
theorem Child.tally_countOccurrence (bits : child.occurrence.Bits) {count : Pair → ℕ}
    (counted : child.tally = .meeting count) :
    child.countOccurrence.tally =
      .meeting fun pair => if child.occurrence = pair then count pair + 1 else count pair := by
  simp only [tally, Tally.meeting, Tally.mk.injEq] at counted
  rcases counted with ⟨c00, c01, c10, c11⟩
  have fields : ∀ pair : Pair, child.occurrence = pair ↔
      child.occurrence.first = pair.first ∧ child.occurrence.second = pair.second := by
    rintro ⟨first, second⟩
    exact Pair.mk.injEq _ _ _ _ ▸ Iff.rfl
  rcases bits with ⟨first | first, second | second⟩ <;>
    simp [countOccurrence, tally, Tally.meeting, fields, first, second, c00, c01, c10, c11]

/-- An alarm is counted once, whichever pair it finds. -/
theorem Child.sum_countOccurrence (bits : child.occurrence.Bits) :
    child.countOccurrence.tally.sum = child.tally.sum + 1 := by
  rcases bits with ⟨first | first, second | second⟩ <;>
    simp only [countOccurrence, tally, Tally.sum, first, second] <;> simp <;> omega

theorem Child.countOccurrence_frame : child.countOccurrence.point = child.point ∧
    child.countOccurrence.counter = child.counter ∧
    child.countOccurrence.occurrence = child.occurrence := by
  rcases child.countOccurrence_eq with ⟨_, _, _, _, counted⟩
  rw [counted]
  exact ⟨rfl, rfl, rfl⟩

theorem Child.step_tally : child.step.tally = child.tally := by
  rcases child.updateFirst_eq with ⟨_, _, first⟩
  rcases child.updateSecond_eq with ⟨_, _, second⟩
  unfold step
  cases child.point <;> simp only [first, second, nextRound, tally] <;> split <;> rfl

/-- What a delivered signal does to the statistics. -/
theorem Child.deliver_statistics {signal : Signal}
    (delivered : child.deliver signal = some child') :
    child'.point = child.point ∧ child'.counter = child.counter ∧
      child'.occurrence = child.occurrence ∧
      child'.tally = if signal = .alrm then child.countOccurrence.tally else child.tally := by
  simp only [deliver, handle] at delivered
  cases signal with
  | usr1 | usr2 =>
      dsimp only at delivered
      split at delivered <;> cases delivered <;> exact ⟨rfl, rfl, rfl, rfl⟩
  | chld =>
      cases delivered
      exact ⟨rfl, rfl, rfl, rfl⟩
  | term => cases delivered
  | alrm =>
      dsimp only at delivered
      split at delivered <;> cases delivered
      have frame : ∀ child : Child, child.alrSignHandler.point = child.point ∧
          child.alrSignHandler.counter = child.counter ∧
          child.alrSignHandler.occurrence = child.occurrence :=
        fun _ => countOccurrence_frame
      refine ⟨(frame _).1, (frame _).2.1, (frame _).2.2, ?_⟩
      rw [if_pos rfl, alrSignHandler, countOccurrence, countOccurrence]
      dsimp only [tally]
      split_ifs <;> rfl

end Counting

section Runs

/-- What a label adds to the alarms that the child of this pid has handled. -/
def alarmsAfter (pid : Pid) (alarms : ℕ) (label : Label) : ℕ :=
  if label = .command (.create (some pid)) then 0
  else if label = .deliver pid .alrm then alarms + 1
  else alarms

/-- The alarms delivered to a child since it was created. -/
def alarms (pid : Pid) (labels : List Label) : ℕ := labels.foldl (alarmsAfter pid) 0

theorem alarms_concat (labels : List Label) (label : Label) :
    alarms pid (labels ++ [label]) = alarmsAfter pid (alarms pid labels) label := by
  rw [alarms, List.foldl_append]
  rfl

theorem showing_next (taken : system.next state label = some successor)
    (showing : ∀ child ∈ state.children pid, child.Showing) :
    ∀ child ∈ successor.children pid, child.Showing := by
  apply (change_next taken pid).keeps showing
  · exact .outside (by simp [Child.forked]) (.inl ⟨rfl, .inl rfl⟩)
  · exact fun _ holds => holds.step
  · intro child child' signal _ holds _ delivered
    rcases Child.deliver_statistics delivered with ⟨point_eq, counter_eq, occurrence_eq, -⟩
    exact holds.congr point_eq counter_eq occurrence_eq
  · exact fun _ _ _ holds => holds.congr rfl rfl rfl
  · exact fun _ holds => holds.congr rfl rfl rfl

/-- The label delivers an alarm to a child that has a pair in `occurrence`. -/
def Meets (pid : Pid) (pair : Pair) (state : State) (label : Label) : Prop :=
  label = .deliver pid .alrm ∧ ∃ child ∈ state.children pid, child.occurrence = pair

instance (pid : Pid) (pair : Pair) (state : State) (label : Label) :
    Decidable (Meets pid pair state label) :=
  inferInstanceAs (Decidable (_ ∧ ∃ child ∈ state.children pid, _ = _))

/-- What a step adds to the alarms that the child of this pid has handled with a pair. -/
def metAfter (pid : Pid) (pair : Pair) (met : ℕ) (state : State) (label : Label) : ℕ :=
  if label = .command (.create (some pid)) then 0
  else if Meets pid pair state label then met + 1
  else met

/-- What a run from a state adds to them. -/
def metFrom (pid : Pid) (pair : Pair) : State → ℕ → List Label → ℕ
  | _, met, [] => met
  | state, met, label :: rest =>
      match system.next state label with
      | none => met
      | some successor => metFrom pid pair successor (metAfter pid pair met state label) rest

/-- The alarms delivered to a child since it was created that have found a pair. -/
def alarmsMeeting (pid : Pid) (labels : List Label) (pair : Pair) : ℕ :=
  metFrom pid pair launched 0 labels

theorem metFrom_concat {pair : Pair} {met : ℕ} {start : State} {labels : List Label}
    (ran : system.run start labels = some state)
    (taken : system.next state label = some successor) :
    metFrom pid pair start met (labels ++ [label]) =
      metAfter pid pair (metFrom pid pair start met labels) state label := by
  induction labels generalizing start met with
  | nil =>
      cases ran
      simp only [List.nil_append, metFrom, taken]
  | cons first rest ih =>
      rw [System.run_cons, Option.bind_eq_some_iff] at ran
      rcases ran with ⟨middle, first_taken, ran⟩
      simp only [List.cons_append, metFrom, first_taken]
      exact ih ran

/-- A step adds to the counts of a child what its label adds to the alarms. -/
theorem tally_next (taken : system.next state label = some successor)
    (showing : ∀ child ∈ state.children pid, child.Showing)
    (there : successor.children pid = some child') :
    label = .command (.create (some pid)) ∧ child'.tally = .meeting (fun _ => 0) ∨
      label ≠ .command (.create (some pid)) ∧ ∃ child ∈ state.children pid,
        child'.tally.sum = alarmsAfter pid child.tally.sum label ∧
        ∀ count, child.tally = .meeting count →
          child'.tally = .meeting fun pair => metAfter pid pair (count pair) state label := by
  by_cases creates : label = .command (.create (some pid))
  · subst creates
    simp only [system, Option.ite_none_right_eq_some, Option.some.injEq] at taken
    rcases taken with ⟨-, rfl⟩
    simp only [State.execute, State.createChild, Function.update_self, Option.some.injEq] at there
    subst there
    exact .inl ⟨rfl, rfl⟩
  refine .inr ⟨creates, ?_⟩
  by_cases alarm : label = .deliver pid .alrm
  · subst alarm
    simp only [system, Option.bind_eq_some_iff, Option.ite_none_right_eq_some,
      Option.some.injEq] at taken
    rcases taken with ⟨child, before, -, rfl⟩
    unfold State.childDeliver at there
    cases delivered : child.deliver .alrm with
    | none =>
        simp [delivered, State.childEnds] at there
    | some handled =>
        simp only [delivered, Function.update_self, Option.some.injEq] at there
        subst there
        rcases Child.deliver_statistics delivered with ⟨-, -, -, counts⟩
        rw [if_pos rfl] at counts
        have bits := (showing child before).bits
        refine ⟨child, before, ?_, fun count counted => ?_⟩
        · rw [counts, Child.sum_countOccurrence bits, alarmsAfter, if_neg creates, if_pos rfl]
        · rw [counts, Child.tally_countOccurrence bits counted]
          congr 1
          funext pair
          have meets_iff : Meets pid pair state (.deliver pid .alrm) ↔ child.occurrence = pair := by
            simp only [Meets, before, Option.mem_some_iff, exists_eq_left', true_and]
          simp only [metAfter, if_neg creates, meets_iff]
  · have change := change_next taken pid
    have no_alarm : ∀ count, alarmsAfter pid count label = count := by
      intro count
      rw [alarmsAfter, if_neg creates, if_neg alarm]
    have no_meeting : ∀ pair count, metAfter pid pair count state label = count := by
      intro pair count
      rw [metAfter, if_neg creates, if_neg fun meets => alarm meets.1]
    simp only [no_alarm, no_meeting]
    rw [there] at change
    have same : ∃ child ∈ state.children pid, child'.tally = child.tally := by
      generalize state.children pid = before at change
      cases change with
      | kept => exact ⟨child', rfl, rfl⟩
      | born created => exact absurd created creates
      | stepped => exact ⟨_, rfl, Child.step_tally⟩
      | @delivered before _ signal delivers _ handled =>
          have other_signal : signal ≠ .alrm := by
            rintro rfl
            exact alarm delivers
          rcases Child.deliver_statistics handled with ⟨-, -, -, counts⟩
          rw [if_neg other_signal] at counts
          exact ⟨before, rfl, counts⟩
      | queued => exact ⟨_, rfl, rfl⟩
      | rang => exact ⟨_, rfl, rfl⟩
    rcases same with ⟨child, before, same⟩
    rw [same]
    exact ⟨child, before, rfl, fun _ counted => counted⟩

@[simp]
theorem stdout_signalParent (signal : Signal) (value : Pid) :
    (state.signalParent signal value).stdout = state.stdout := by
  unfold State.signalParent
  split <;> rfl

theorem stdout_deleteLastChild (state : State) : state.deleteLastChild.stdout = state.stdout := by
  unfold State.deleteLastChild
  split <;> rfl

theorem stdout_deleteAllChild (state : State) : state.deleteAllChild.stdout = state.stdout := by
  unfold State.deleteAllChild
  induction state.childProcesses.length generalizing state with
  | zero => rfl
  | succ count ih => rw [Function.iterate_succ_apply, ih, stdout_deleteLastChild]

theorem stdout_execute (state : State) (command : Command) :
    (state.execute command).stdout = state.stdout := by
  cases command with
  | create forked => cases forked <;> rfl
  | deleteLast => exact stdout_deleteLastChild state
  | deleteAll | quit => exact stdout_deleteAllChild state
  | stop index =>
      simp only [State.execute, State.stopChild]
      split <;> rfl
  | start index =>
      simp only [State.execute, State.startChild]
      split <;> rfl
  | list | invalid => rfl

/-- Only a child that prints adds a line, with its counts. -/
theorem stdout_next (taken : system.next state label = some successor) :
    successor.stdout = state.stdout ∨ ∃ pid, ∃ child ∈ state.children pid, label = .child pid ∧
      successor.stdout = state.stdout ++ [⟨pid, child.c00, child.c01, child.c10, child.c11⟩] := by
  cases label with
  | command command =>
      simp only [system, Option.ite_none_right_eq_some, Option.some.injEq] at taken
      rcases taken with ⟨-, rfl⟩
      exact .inl (stdout_execute state command)
  | interrupt signal =>
      simp only [system, Option.ite_none_right_eq_some, Option.map_eq_some_iff] at taken
      rcases taken with ⟨-, value, -, rfl⟩
      exact .inl rfl
  | resume =>
      simp only [system, Option.map_eq_some_iff] at taken
      rcases taken with ⟨⟨signo, childPid⟩, -, rfl⟩
      cases signo <;> exact .inl rfl
  | child pid =>
      simp only [system, Option.map_eq_some_iff] at taken
      rcases taken with ⟨child, there, rfl⟩
      have moved : (state.childStep pid child).stdout =
          if child.point = .print then
            state.stdout ++ [⟨pid, child.c00, child.c01, child.c10, child.c11⟩]
          else state.stdout := by
        unfold State.childStep
        cases child.point.sends with
        | none => rfl
        | some signal => exact stdout_signalParent signal pid
      rw [moved]
      split
      · exact .inr ⟨pid, child, there, rfl, rfl⟩
      · exact .inl rfl
  | deliver pid signal =>
      simp only [system, Option.bind_eq_some_iff, Option.ite_none_right_eq_some,
        Option.some.injEq] at taken
      rcases taken with ⟨child, -, -, rfl⟩
      unfold State.childDeliver
      split
      · exact .inl (stdout_signalParent .chld 0)
      · exact .inl rfl
  | ring pid =>
      simp only [system, Option.bind_eq_some_iff, Option.ite_none_right_eq_some,
        Option.some.injEq] at taken
      rcases taken with ⟨child, -, -, rfl⟩
      exact .inl rfl
  | execFails pid =>
      simp only [system, Option.bind_eq_some_iff, Option.ite_none_right_eq_some,
        Option.some.injEq] at taken
      rcases taken with ⟨child, -, -, rfl⟩
      exact .inl (stdout_signalParent .chld 0)

def Printout.tally (line : Printout) : Tally := ⟨line.c00, line.c01, line.c10, line.c11⟩

/-- Counts say of each pair how many alarms have met it, and in all how many there were. -/
def Tally.Of (tally : Tally) (pid : Pid) (labels : List Label) : Prop :=
  tally = .meeting (alarmsMeeting pid labels) ∧ tally.sum = alarms pid labels

/-- Every child has counted each alarm that it has handled for the pair that this has met, one of
four; every line printed accounts so for the alarms handled before some point of the run. -/
structure Accounts (labels : List Label) (state : State) : Prop where
  counted : ∀ pid, ∀ child ∈ state.children pid, child.tally.Of pid labels ∧ child.occurrence.Bits
  printed : ∀ line ∈ state.stdout, ∃ before, before <+: labels ∧ line.tally.Of line.pid before

theorem Child.tally_of_next {labels : List Label} (ran : system.run launched labels = some state)
    (taken : system.next state label = some successor)
    (showing : ∀ child ∈ state.children pid, child.Showing)
    (counted : ∀ child ∈ state.children pid, child.tally.Of pid labels)
    (there : successor.children pid = some child') : child'.tally.Of pid (labels ++ [label]) := by
  have met_eq : ∀ pair, alarmsMeeting pid (labels ++ [label]) pair =
      metAfter pid pair (alarmsMeeting pid labels pair) state label :=
    fun pair => metFrom_concat ran taken
  unfold Tally.Of
  rw [alarms_concat, funext met_eq]
  rcases tally_next taken showing there with ⟨created, none_yet⟩ | ⟨-, child, before, sum, each⟩
  · rw [none_yet, alarmsAfter, if_pos created]
    refine ⟨?_, rfl⟩
    congr 1
    funext pair
    rw [metAfter, if_pos created]
  · rcases counted child before with ⟨tally_eq, sum_eq⟩
    exact ⟨each _ tally_eq, by rw [sum, sum_eq]⟩

/-- In every run of the parent and its children the statistics account for all alarms. -/
theorem accounts_of_run {labels : List Label} (ran : system.run launched labels = some state) :
    Accounts labels state := by
  suffices kept : (∀ pid, ∀ child ∈ state.children pid, child.Showing) ∧
      (∀ pid, ∀ child ∈ state.children pid, child.tally.Of pid labels) ∧
      ∀ line ∈ state.stdout, ∃ before, before <+: labels ∧ line.tally.Of line.pid before by
    exact ⟨fun pid child there => ⟨kept.2.1 pid child there, (kept.1 pid child there).bits⟩,
      kept.2.2⟩
  apply System.run_induction (motive := fun labels state =>
    (∀ pid, ∀ child ∈ state.children pid, child.Showing) ∧
      (∀ pid, ∀ child ∈ state.children pid, child.tally.Of pid labels) ∧
      ∀ line ∈ state.stdout, ∃ before, before <+: labels ∧ line.tally.Of line.pid before) _ _ ran
  · refine ⟨fun pid child there => ?_, fun pid child there => ?_, fun line printed => ?_⟩
    · cases there
    · cases there
    · cases printed
  · rintro labels state label successor ran ⟨showing, counted, printed⟩ taken
    refine ⟨fun pid => showing_next taken (showing pid), fun pid child' there => ?_,
      fun line line_mem => ?_⟩
    · exact Child.tally_of_next ran taken (showing pid) (counted pid) there
    · have earlier : line ∈ state.stdout → ∃ before, before <+: labels ++ [label] ∧
          line.tally.Of line.pid before := by
        intro already
        rcases printed line already with ⟨before, starts, counts⟩
        exact ⟨before, starts.trans (List.prefix_append _ _), counts⟩
      rcases stdout_next taken with same | ⟨pid, child, before, -, longer⟩
      · exact earlier (same ▸ line_mem)
      · rw [longer] at line_mem
        rcases List.mem_append.mp line_mem with already | last
        · exact earlier already
        · rw [List.mem_singleton.mp last]
          exact ⟨labels, List.prefix_append _ _, counted pid child before⟩

end Runs

/-- Two alarms, one in the middle of `UpdateStat` between the pairs `(1, 0)` and `(0, 1)`. -/
def alarmBetween : List Label :=
  .command (.create (some 5)) :: List.replicate 12 (.child 5) ++ [.ring 5, .deliver 5 .alrm] ++
    List.replicate 5 (.child 5) ++ [.ring 5, .deliver 5 .alrm]

/-- The first alarm finds `(1, 0)` and the other `(0, 0)`, which is neither of the two pairs. -/
theorem accounts_of_run_alarmBetween :
    ∃ state, system.run launched alarmBetween = some state ∧
      (state.children 5).map Child.tally = some ⟨1, 1, 0, 0⟩ ∧ Accounts alarmBetween state := by
  have ran : (system.run launched alarmBetween).map (fun state =>
      (state.children 5).map Child.tally) = some (some ⟨1, 1, 0, 0⟩) := by
    decide +kernel
  rcases Option.map_eq_some_iff.mp ran with ⟨state, ran, found⟩
  exact ⟨state, ran, found, accounts_of_run ran⟩

end Osis.Lab03
