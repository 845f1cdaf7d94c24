/-
# Blueth.Concurrency.MutexSynchronize — `MutexSynchronize` (`concurrency/MutexSynchronize.hpp`).

The wrapper hands its data to whatever function the caller brings along: to a write function under a
`std::lock_guard`, to a read function under a `std::shared_lock`. The functions are arbitrary handlers here,
and they may throw: the lock is given back either way. `withReadLock` passes a plain reference, so that a
read function only reads is the caller's word; it is the subtype of `withReadLock` below.

`sync_linearizable` is what the class promises, for all functions at once: every call happens at one
instant. `sync_readers_and_writer` is the comment at the top of the file: concurrent readers and a single
writer, and nothing is updated in the middle of reading.

`MutexSynchronize(const TypeName &data) : data_{data_}` initialises the data with itself. What it makes of
an lvalue is right exactly when the memory happened to hold a copy of it already (`copied_iff`).
-/
import Blueth.Transition.Atomic

set_option autoImplicit false

namespace Blueth.Concurrency.MutexSynchronize

open Blueth.Transition Blueth.Transition.Guarded

variable {ι σ ρ ε : Type*}

/-! ## The class -/

inductive SyncCall (σ ρ ε : Type*)
  | withWriteLock (writeFunction : Handler σ (Except ε Unit))
  | withReadLock (readFunction : { h : Handler σ (Except ε ρ) // h.ReadsOnly })

inductive SyncAnswer (ρ ε : Type*)
  | written
  | read (value : ρ)
  | threw (e : ε)
deriving DecidableEq, Repr

def SyncAnswer.ofWrite : Except ε Unit → SyncAnswer ρ ε
  | .ok _ => written
  | .error e => threw e

def SyncAnswer.ofRead : Except ε ρ → SyncAnswer ρ ε
  | .ok value => read value
  | .error e => threw e

/-- The two member functions. -/
def interface : Interface (SyncCall σ ρ ε) σ (SyncAnswer ρ ε) where
  mode
    | .withWriteLock _ => .exclusive
    | .withReadLock _ => .shared
  body
    | .withWriteLock writeFunction => writeFunction.map .ofWrite
    | .withReadLock readFunction => readFunction.1.map .ofRead
  readsOnly call h := by
    cases call with
    | withWriteLock writeFunction => cases h
    | withReadLock readFunction => exact readFunction.2.map _

/-- `MutexSynchronize(TypeName &&data) : data_{std::move(data)}`: what `data_` holds. -/
def ofRvalue (data : σ) : σ := data

/-- `MutexSynchronize(const TypeName &data) : data_{data_}`. The parameter is not used; `uninit` is what the
memory of `data_` held. -/
def ofLvalue (_data uninit : σ) : σ := uninit

/-- **The system**: threads that share one object, whose data is `data_`. -/
def mutexSynchronize [DecidableEq ι] (data_ : σ) :
    System (State ι (SyncCall σ ρ ε) σ (SyncAnswer ρ ε)) (Act ι (SyncCall σ ρ ε) (SyncAnswer ρ ε)) :=
  guarded interface (· = data_)

/-! ## One instant for every call -/

/-- A call that happens at one instant: the function, from its first access to its last. -/
def atOnce : SyncCall σ ρ ε → σ → SyncAnswer ρ ε × σ
  | .withWriteLock writeFunction, data => (.ofWrite (writeFunction.run data).1, (writeFunction.run data).2)
  | .withReadLock readFunction, data => (.ofRead (readFunction.1.run data).1, data)

theorem implements : Implements (interface (σ := σ) (ρ := ρ) (ε := ε)) atOnce Eq := by
  rintro call data _ rfl
  cases call with
  | withWriteLock writeFunction =>
      show ((writeFunction.map _).run data).1 = _ ∧ ((writeFunction.map _).run data).2 = _
      rw [Handler.run_map]
      exact ⟨rfl, rfl⟩
  | withReadLock readFunction =>
      show ((readFunction.1.map _).run data).1 = _ ∧ ((readFunction.1.map _).run data).2 = _
      rw [Handler.run_map]
      exact ⟨rfl, Handler.run_of_readsOnly readFunction.2 data⟩

/-! ## A writer and a reader -/

/-- `withReadLock([](const auto &data) { return data; })`. -/
def readAll : SyncCall σ σ ε := .withReadLock ⟨.look fun data => .done (.ok data), fun _ => trivial⟩

/-- `withWriteLock([](auto &counter) { counter += 10; })`, the sum computed before it is stored. -/
def addTen : SyncCall ℕ ℕ ε :=
  .withWriteLock (.look fun counter => .store (fun _ => counter + 10) (.done (.ok ())))

def counter : State Bool (SyncCall ℕ ℕ Empty) ℕ (SyncAnswer ℕ Empty) := ⟨0, .free, fun _ => .outside⟩

/-- The reader calls before the writer has the lock, and gets it after. -/
def writerReader : List (Act Bool (SyncCall ℕ ℕ Empty) (SyncAnswer ℕ Empty)) :=
  [.call true addTen, .call false readAll, .lock true, .access true, .access true, .unlock true addTen .written,
    .lock false, .access false, .unlock false readAll (.read 10), .answer true .written,
    .answer false (.read 10)]

theorem counter_init : (mutexSynchronize (ι := Bool) (ρ := ℕ) (ε := Empty) 0).init counter :=
  ⟨rfl, rfl, fun _ => rfl⟩

theorem writerReader_run : ∃ t, (mutexSynchronize 0).Run counter writerReader t :=
  ⟨_, .cons (.call _ rfl) <| .cons (.call _ rfl) <| .cons (.lock rfl rfl) <| .cons (.look rfl) <|
    .cons (.store rfl) <| .cons (.unlock rfl rfl) <| .cons (.lock rfl rfl) <| .cons (.look rfl) <|
    .cons (.unlock rfl rfl) <| .cons (.answer rfl) <| .cons (.answer rfl) <| .nil _⟩

/-! ## Any number of threads -/

section Runs

variable [DecidableEq ι] {data_ : σ} {s t : State ι (SyncCall σ ρ ε) σ (SyncAnswer ρ ε)}
  {as : List (Act ι (SyncCall σ ρ ε) (SyncAnswer ρ ε))} {i j : ι}

/-- **Every call happens at one instant**, whatever the functions are and however the threads interleave. -/
theorem sync_linearizable (hs : (mutexSynchronize data_).init s) (hr : (mutexSynchronize data_).Run s as t) :
    Linearizable atOnce data_ (as.filterMap Act.event) :=
  linearizable_of_implements implements (fun _ h => h) hs hr

theorem sync_linearizable_writerReader :
    Linearizable atOnce 0 [Event.call true addTen, .call false readAll,
      .answer true (SyncAnswer.written : SyncAnswer ℕ Empty), .answer false (.read 10)] := by
  obtain ⟨t, hr⟩ := writerReader_run
  exact sync_linearizable counter_init hr

/-! ## Readers and a writer -/

/-- The thread is inside a write function. -/
def IsWriting (s : State ι (SyncCall σ ρ ε) σ (SyncAnswer ρ ε)) (i : ι) : Prop :=
  (s.phase i).Inside interface .exclusive

/-- It is inside a read function. -/
def IsReading (s : State ι (SyncCall σ ρ ε) σ (SyncAnswer ρ ε)) (i : ι) : Prop :=
  (s.phase i).Inside interface .shared

/-- **Concurrent readers and a single writer.** Who writes is alone; while somebody reads, the data stays as
it is, whatever the others do; and a reader waits for nobody but a writer. -/
theorem sync_readers_and_writer (hs : (mutexSynchronize data_).Reachable s) :
    (∀ i j, IsWriting s i → IsWriting s j ∨ IsReading s j → j = i) ∧
      (∀ i as t, IsReading s i → (mutexSynchronize data_).Run s as t →
        (∀ call answer, Act.unlock i call answer ∉ as) → IsReading t i ∧ t.object = s.object) ∧
      ∀ i readFunction, s.phase i = .waiting (.withReadLock readFunction) →
        ((∃ t, (mutexSynchronize data_).next s (.lock i) t) ↔ ∀ j, ¬ IsWriting s j) := by
  have hc := reachable_coherent hs
  refine ⟨fun i j hi hj => ?_, fun i as t hi hr has => ?_, fun i readFunction hi => ?_⟩
  · obtain ⟨call, rest, hi, hmode⟩ := hi
    rcases hj with ⟨call', rest', hj, -⟩ | ⟨call', rest', hj, -⟩
    · exact hc.alone hi hmode hj
    · exact hc.alone hi hmode hj
  · obtain ⟨call, rest, hi, hmode⟩ := hi
    obtain ⟨⟨rest', hi'⟩, hobject⟩ := object_eq_of_reading hr hc hi hmode (has call)
    exact ⟨⟨call, rest', hi', hmode⟩, hobject⟩
  · have hwriting : (∀ j, ¬ IsWriting s j) ↔ ∀ j, ¬ s.mutex.HeldBy .exclusive j :=
      forall_congr' fun j => not_congr (hc.held .exclusive j).symm
    rw [hwriting, ← SharedMutex.exists_acquire_shared_iff (i := i)]
    constructor
    · rintro ⟨t, hn⟩
      cases hn with
      | lock h hm =>
          cases h.symm.trans hi
          exact ⟨_, hm⟩
    · rintro ⟨m, hm⟩
      exact ⟨_, .lock hi hm⟩

/-- One thread reads, the other waits to write. -/
theorem sync_readers_and_writer_reading :
    ∃ s : State Bool (SyncCall ℕ ℕ Empty) ℕ (SyncAnswer ℕ Empty),
      IsReading s false ∧ ∀ as t, (mutexSynchronize 0).Run s as t →
        (∀ call answer, Act.unlock false call answer ∉ as) → IsReading t false ∧ t.object = 0 := by
  let s : State Bool (SyncCall ℕ ℕ Empty) ℕ (SyncAnswer ℕ Empty) :=
    { ((counter.move false (.waiting readAll)).move true (.waiting addTen)).move false
      (.inside readAll (interface.body readAll)) with mutex := .shared [false] }
  have hs : (mutexSynchronize 0).Reachable s :=
    ⟨counter, [.call false readAll, .call true addTen, .lock false], counter_init,
      .cons (.call _ rfl) <| .cons (.call _ rfl) <| .single (.lock rfl rfl)⟩
  exact ⟨s, ⟨_, _, rfl, rfl⟩, fun as t => (sync_readers_and_writer hs).2.1 false as t ⟨_, _, rfl, rfl⟩⟩

/-- **Every call returns**, whatever the scheduler does. -/
theorem sync_calls_return [Fintype ι] (hs : (mutexSynchronize data_).Reachable s) :
    ((mutexSynchronize data_).only fun _ a => a.isCall = false).Inevitable
      (fun t => ∀ i, t.phase i = .outside) s :=
  inevitable_quiet (reachable_coherent hs)

theorem sync_calls_return_counter :
    ((mutexSynchronize 0).only fun _ a => a.isCall = false).Inevitable (fun t => ∀ i, t.phase i = .outside)
      ((counter.move true (.waiting addTen)).move false (.waiting readAll)) :=
  sync_calls_return (System.reachable_init counter_init |>.step (.call _ rfl) |>.step (.call _ rfl))

end Runs

/-! ## The constructor that copies -/

/-- **What the copying constructor is good for.** With it, the threads see an object that started out as
`data` exactly when the memory held `data` by chance. -/
theorem copied_iff [DecidableEq ι] [Inhabited ι] (data uninit : σ) :
    (∀ (s t : State ι (SyncCall σ σ ε) σ (SyncAnswer σ ε)) (as : List (Act ι (SyncCall σ σ ε) (SyncAnswer σ ε))),
      (mutexSynchronize (ofLvalue data uninit)).init s → (mutexSynchronize (ofLvalue data uninit)).Run s as t →
        Linearizable atOnce data (as.filterMap Act.event)) ↔ uninit = data := by
  constructor
  · intro h
    -- the first caller reads all there is
    let s : State ι (SyncCall σ σ ε) σ (SyncAnswer σ ε) := ⟨uninit, .free, fun _ => .outside⟩
    have hr : ∃ t, (mutexSynchronize uninit).Run s [.call default readAll, .lock default, .access default,
        .unlock default readAll (.read uninit), .answer default (.read uninit)] t :=
      ⟨_, .cons (.call _ rfl) <| .cons (.lock move_phase_self rfl) <| .cons (.look move_phase_self) <|
        .cons (.unlock move_phase_self (if_pos List.mem_cons_self)) <| .cons (.answer move_phase_self) <|
        .nil _⟩
    obtain ⟨t, hr⟩ := hr
    have hread := answer_of_linearizable (h s t _ ⟨rfl, rfl, fun _ => rfl⟩ hr)
    cases hread
    rfl
  · rintro rfl s t as hs hr
    exact linearizable_of_implements implements (fun _ h => h) hs hr

end Blueth.Concurrency.MutexSynchronize
