import Osis.Lab05.CondQueue.Program

/-!
# The steps of the program

What a worker and `main` can do, with what each has tested before it does so. A queue
function that is called inside moves the queue as it does by itself.
-/

namespace Osis.Lab05.CondQueue

universe u

namespace Program

variable {maxProds : ℕ} {Message : Type u}

/-- What a worker can do. -/
inductive WorkerAdvances (state : Program maxProds Message) (kind : Kind) (slot : Fin maxProds) :
    Program maxProds Message → Prop where
  | calls (msg : Message) {queue : State (ThreadId maxProds) Message}
      (testing : state.tasks kind slot = .test) (running : state.queue.shared.running = true)
      (called : CondQueue.next state.queue (.call (.worker kind slot) (call msg kind)) =
        some queue) :
      WorkerAdvances state kind slot ({ state with queue := queue }.setTask kind slot .calling)
  | leaves (testing : state.tasks kind slot = .test)
      (stopped : ¬state.queue.shared.running = true) :
      WorkerAdvances state kind slot (state.setTask kind slot .ended)
  | steps (woken : List (ThreadId maxProds)) {queue : State (ThreadId maxProds) Message}
      (calling : state.tasks kind slot = .calling)
      (stepped : CondQueue.next state.queue (.step (.worker kind slot) woken) = some queue) :
      WorkerAdvances state kind slot
        ({ state with queue := queue }.setTask kind slot
          (afterStep (state.queue.points (.worker kind slot))))
  | wakes (asleep : state.tasks kind slot = .sleep) :
      WorkerAdvances state kind slot
        (state.setTask kind slot (if state.cancelled kind slot then .ended else .test))

/-- What `main` can do where it does not wait for a command. -/
inductive MainAdvances (state : Program maxProds Message) : Program maxProds Message → Prop where
  | scans (at_main : state.main = .test) (running : state.queue.shared.running = true) :
      MainAdvances state { state with main := .scan }
  | leaves (at_main : state.main = .test) (stopped : state.queue.shared.running = false) :
      MainAdvances state
        { state with main := .lock bothConditions .shutdown, left := some false }
  | resized (at_main : state.main = .resize) (idle : state.queue.points .main = .idle) :
      MainAdvances state { state with main := .test }
  | resizes {queue : State (ThreadId maxProds) Message} (at_main : state.main = .resize)
      (stepped : CondQueue.next state.queue (.step .main []) = some queue) :
      MainAdvances state { state with queue := queue }
  | locks {broadcasts : List Condition} {after : After}
      (at_main : state.main = .lock broadcasts after) (free : state.queue.shared.mutex = none) :
      MainAdvances state { state.setMutex (some .main) with main := .locked broadcasts after }
  | broadcasts {condition : Condition} {broadcasts : List Condition} {after : After}
      (at_main : state.main = .locked (condition :: broadcasts) after) :
      MainAdvances state { state.broadcast condition with main := .locked broadcasts after }
  | unlocks {after : After} (at_main : state.main = .locked [] after) :
      MainAdvances state { state.setMutex none with main := After.target after }
  | nobodyLeft {kind : Kind} {caller : Caller} (at_main : state.main = .removeLast kind caller)
      (nobody : state.count kind = 0) :
      MainAdvances state { state with main := Caller.target caller }
  | removes {kind : Kind} {caller : Caller} (at_main : state.main = .removeLast kind caller)
      (some_left : 0 < state.count kind) :
      MainAdvances state { state with main := .lock [kind.condition] (.removeLast kind caller) }
  | cancels {kind : Kind} {caller : Caller} {successor : Program maxProds Message}
      (at_main : state.main = .cancel kind caller)
      (taken : state.cancel kind caller = some successor) : MainAdvances state successor
  | joins {kind : Kind} {slot : Fin maxProds} {caller : Caller}
      {successor : Program maxProds Message} (at_main : state.main = .join kind slot caller)
      (taken : state.join kind slot caller = some successor) : MainAdvances state successor
  | removesNext {final : Bool} {kind : Kind} (at_main : state.main = .removeAll final)
      (some_left : 0 < state.count kind)
      (producersFirst : kind = .consumer → state.count .producer = 0) :
      MainAdvances state { state with main := .removeLast kind (.removeAll final) }
  | removedAll {final : Bool} (at_main : state.main = .removeAll final)
      (nobody : ∀ kind, state.count kind = 0) :
      MainAdvances state { state with main := if final then .destroy else .test }

variable {state successor : Program maxProds Message} {kind : Kind} {slot : Fin maxProds}

theorem workerAdvances_of_workerNext {msg : Message} {woken : List (ThreadId maxProds)}
    (taken : state.workerNext kind slot msg woken = some successor) :
    WorkerAdvances state kind slot successor := by
  simp only [workerNext] at taken
  cases task_eq : state.tasks kind slot with
  | absent | ended => simp [task_eq] at taken
  | test =>
      simp only [task_eq] at taken
      split at taken
      · next running =>
          simp only [queueNext, Option.map_map, Option.map_eq_some_iff] at taken
          rcases taken with ⟨queue, called, rfl⟩
          exact .calls msg task_eq running called
      · next stopped =>
          cases taken
          exact .leaves task_eq stopped
  | calling =>
      simp only [task_eq, queueNext, Option.map_map, Option.map_eq_some_iff] at taken
      rcases taken with ⟨queue, stepped, rfl⟩
      exact .steps woken task_eq stepped
  | sleep =>
      simp only [task_eq] at taken
      cases taken
      exact .wakes task_eq

theorem mainAdvances_of_mainNext (taken : state.mainNext = some successor) :
    MainAdvances state successor := by
  simp only [mainNext] at taken
  cases main_eq : state.main with
  | scan | destroy => simp [main_eq] at taken
  | test =>
      simp only [main_eq] at taken
      split at taken
      · next running =>
          cases taken
          exact .scans main_eq running
      · next stopped =>
          cases taken
          exact .leaves main_eq (Bool.not_eq_true _ ▸ stopped)
  | resize =>
      simp only [main_eq] at taken
      split at taken
      · next idle =>
          cases taken
          exact .resized main_eq idle
      · simp only [queueNext, Option.map_eq_some_iff] at taken
        rcases taken with ⟨queue, stepped, rfl⟩
        exact main_eq ▸ .resizes main_eq stepped
  | lock broadcasts after =>
      simp only [main_eq, Option.ite_none_right_eq_some, Option.some.injEq] at taken
      rcases taken with ⟨free, rfl⟩
      exact .locks main_eq free
  | locked broadcasts after =>
      cases broadcasts with
      | nil =>
          simp only [main_eq] at taken
          cases taken
          exact .unlocks main_eq
      | cons condition broadcasts =>
          simp only [main_eq] at taken
          cases taken
          exact .broadcasts main_eq
  | removeLast kind caller =>
      simp only [main_eq] at taken
      split at taken
      · next nobody =>
          cases taken
          exact .nobodyLeft main_eq nobody
      · next some_left =>
          cases taken
          exact .removes main_eq (Nat.pos_of_ne_zero some_left)
  | cancel kind caller =>
      simp only [main_eq] at taken
      exact .cancels main_eq taken
  | join kind slot caller =>
      simp only [main_eq] at taken
      exact .joins main_eq taken
  | removeAll final =>
      simp only [main_eq] at taken
      split at taken
      · next producers =>
          cases taken
          exact .removesNext main_eq producers (fun other => nomatch other)
      · next no_producer =>
          have producers : state.count .producer = 0 := Nat.eq_zero_of_not_pos no_producer
          split at taken
          · next consumers =>
              cases taken
              exact .removesNext main_eq consumers fun _ => producers
          · next no_consumer =>
              have nobody : ∀ kind, state.count kind = 0
                | .producer => producers
                | .consumer => Nat.eq_zero_of_not_pos no_consumer
              have ended := MainAdvances.removedAll main_eq nobody
              cases final with
              | true =>
                  cases taken
                  exact ended
              | false =>
                  cases taken
                  exact ended

end Program

end Osis.Lab05.CondQueue
