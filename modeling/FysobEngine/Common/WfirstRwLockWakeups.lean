import FysobEngine.Common.WfirstRwLockInvariant

/-!
# No lost wake-up

Whoever waits without a notification waits for somebody: a writer for a holder or
for another writer that has been notified, a reader for a counted writer.
-/

namespace FysobEngine.Common.WfirstRwLock

open Foundation.Census Foundation.Runs

variable {Thread : Type} [DecidableEq Thread]

def WritersAwaited (s : WfirstRwLock Thread) : Prop :=
  ∀ t, s.place t = .waiting .write →
    0 < s.readCnt ∨ s.writeFlag = true ∨ ∃ u, s.place u = .notified .write

def ReadersAwaited (s : WfirstRwLock Thread) : Prop :=
  ∀ t, s.place t = .waiting .read → 0 < s.writeCnt

structure Awaited (s : WfirstRwLock Thread) : Prop where
  writers : WritersAwaited s
  readers : ReadersAwaited s

theorem place_move_of_ne {s : WfirstRwLock Thread} {t u : Thread} {new : Place} (ne : u ≠ t) :
    (s.move t new).place u = s.place u :=
  Function.update_of_ne ne _ _

@[simp] theorem place_move_self (s : WfirstRwLock Thread) (t : Thread) (new : Place) :
    (s.move t new).place t = new :=
  Function.update_self _ _ _

/-- Nobody begins to wait who is moved elsewhere. -/
theorem place_of_move {s : WfirstRwLock Thread} {t u : Thread} {here : Place} (new : Place)
    (elsewhere : new ≠ here) (at_here : (s.move t new).place u = here) : s.place u = here := by
  by_cases same : u = t
  · subst same
    exact absurd ((place_move_self s u new).symm.trans at_here) elsewhere
  · exact (place_move_of_ne same).symm.trans at_here

omit [DecidableEq Thread] in
theorem create_awaited : Awaited (create : WfirstRwLock Thread) :=
  ⟨fun t waits => by simp [create] at waits, fun t waits => by simp [create] at waits⟩

theorem awaitRead_awaited {s : WfirstRwLock Thread} {t : Thread} (awaited : Awaited s)
    (calm : (s.place t).wantsWrite = false) : Awaited (s.awaitRead t) := by
  unfold awaitRead
  split
  · -- a reader inside is somebody the writers wait for
    refine ⟨fun u _ => .inl (Nat.succ_pos _), fun u waits => ?_⟩
    exact awaited.readers u (place_of_move (.holding .read) (by simp) waits)
  · rename_i busy
    refine ⟨fun u waits => ?_, fun u _ => Nat.pos_of_ne_zero busy⟩
    obtain readers | flag | ⟨v, notified⟩ := awaited.writers u (place_of_move _ (by simp) waits)
    · exact .inl readers
    · exact .inr (.inl flag)
    · have other : v ≠ t := by
        intro same
        rw [same] at notified
        rw [notified] at calm
        cases calm
      exact .inr (.inr ⟨v, (place_move_of_ne other).trans notified⟩)

/-- A writer that looks in vain has seen a holder. -/
theorem awaitWrite_awaited {s : WfirstRwLock Thread} {t : Thread} (readers : ReadersAwaited s) :
    Awaited (s.awaitWrite t) := by
  unfold awaitWrite
  split
  · refine ⟨fun u _ => .inr (.inl rfl), fun u waits => ?_⟩
    exact readers u (place_of_move (.holding .write) (by simp) waits)
  · rename_i held
    refine ⟨fun u _ => ?_, fun u waits => readers u (place_of_move _ (by simp) waits)⟩
    by_cases none : s.readCnt = 0
    · exact .inr (.inl (Bool.eq_true_of_not_eq_false fun down => held ⟨none, down⟩))
    · exact .inl (Nat.pos_of_ne_zero none)

theorem withWriter_readers (s : WfirstRwLock Thread) (t : Thread) :
    ReadersAwaited (s.withWriter t) :=
  fun _ _ => Nat.succ_pos _

variable [Fintype Thread]

/-- After `notify_one` no writer waits, or one has been notified. -/
theorem notifyOne_awaited {s s' : WfirstRwLock Thread} {woken : Option Thread}
    (readers : ReadersAwaited s) (done : s.notifyOne woken = some s') : Awaited s' := by
  cases woken with
  | none =>
      rw [notifyOne] at done
      split at done
      · rename_i nobody
        cases done
        exact ⟨fun u waits => absurd waits (nobody u), readers⟩
      · cases done
  | some t =>
      rw [notifyOne] at done
      split at done
      · cases done
        refine ⟨fun _ _ => .inr (.inr ⟨t, place_move_self _ _ _⟩), fun u waits => ?_⟩
        exact readers u (place_of_move _ (by simp) waits)
      · cases done

omit [DecidableEq Thread] in
theorem Counted.nobody_waits {s : WfirstRwLock Thread} (counted : Counted s)
    (none : s.writeCnt = 0) (t : Thread) : s.place t ≠ .waiting .write := by
  intro waits
  have writers : 0 < census s.place Place.wantsWrite := census_pos.mpr ⟨t, by rw [waits]; rfl⟩
  rw [← counted.writeCnt, none] at writers
  exact absurd writers (Nat.lt_irrefl 0)

omit [DecidableEq Thread] in
/-- After the last writer every reader has been notified. -/
theorem notifyAll_awaited {s : WfirstRwLock Thread} (counted : Counted s)
    (none : s.writeCnt = 0) : Awaited s.notifyAll := by
  refine ⟨fun t waits => absurd waits ?_, fun t waits => ?_⟩
  · exact (counted.stirred (notifyAll_stirred s)).nobody_waits none t
  · by_cases reader : s.place t = .waiting .read <;> simp [notifyAll, reader] at waits

theorem Turn.awaited {s s' : WfirstRwLock Thread} (turn : Turn s s') (counted : Counted s)
    (awaited : Awaited s) : Awaited s' := by
  cases turn with
  | awaitRead t idle calm => exact awaitRead_awaited awaited calm
  | awaitWrite t waits idle => exact awaitWrite_awaited awaited.readers
  | writeLock t outside =>
      rw [writeLock_eq]
      exact awaitWrite_awaited (withWriter_readers s t)
  | readUnlock t woken holds done =>
      have readers : ReadersAwaited (s.withoutReader t) := fun u waits =>
        awaited.readers u (place_of_move _ (by simp) waits)
      obtain ⟨-, notified⟩ | ⟨more | none, rfl⟩ := readUnlock_cases done
      · exact notifyOne_awaited readers notified
      · exact ⟨fun _ _ => .inl (Nat.pos_of_ne_zero more), readers⟩
      · have left := withoutReader_counted counted holds
        exact ⟨fun u waits => absurd waits (left.nobody_waits none u), readers⟩
  | writeUnlock t woken holds done =>
      obtain ⟨none, rfl⟩ | ⟨more, notified⟩ := writeUnlock_cases done
      · exact notifyAll_awaited (withoutWriter_counted counted holds) none
      · exact notifyOne_awaited (fun _ _ => more) notified

theorem reached_awaited {history : List (Action Thread)} {s : WfirstRwLock Thread}
    (run : Reached (fun _ _ => True) Steps create history s) : Awaited s := by
  have both := run.invariant_all (I := fun s => Counted s ∧ Awaited s)
    (fun _ _ _ both _ step => ⟨step.turn.counted both.1, step.turn.awaited both.1 both.2⟩)
    ⟨create_counted, create_awaited⟩
  exact both.2

omit [DecidableEq Thread] in
theorem Counted.reader_inside {s : WfirstRwLock Thread} (counted : Counted s)
    (readers : 0 < s.readCnt) : ∃ t, s.place t = .holding .read := by
  rw [counted.readCnt] at readers
  obtain ⟨t, reads⟩ := census_pos.mp readers
  refine ⟨t, ?_⟩
  cases here : s.place t with
  | holding mode => cases mode <;> simp_all [Place.reads]
  | _ => simp_all [Place.reads]

omit [DecidableEq Thread] in
theorem Counted.writer_inside {s : WfirstRwLock Thread} (counted : Counted s)
    (flag : s.writeFlag = true) : ∃ t, s.place t = .holding .write := by
  have writers : 0 < census s.place Place.writes := by simp [counted.writeFlag, flag]
  obtain ⟨t, writes⟩ := census_pos.mp writers
  refine ⟨t, ?_⟩
  cases here : s.place t with
  | holding mode => cases mode <;> simp_all [Place.writes]
  | _ => simp_all [Place.writes]

omit [DecidableEq Thread] in
/-- A waiting writer that has not been notified has a holder, or another writer
that has been notified and has still to look, to wait for. -/
theorem waiting_writer {s : WfirstRwLock Thread} (counted : Counted s) (awaited : Awaited s)
    {t : Thread} (waits : s.place t = .waiting .write) :
    (∃ u mode, s.place u = .holding mode) ∨ ∃ u, u ≠ t ∧ s.place u = .notified .write := by
  obtain readers | flag | ⟨u, notified⟩ := awaited.writers t waits
  · obtain ⟨u, holds⟩ := counted.reader_inside readers
    exact .inl ⟨u, .read, holds⟩
  · obtain ⟨u, holds⟩ := counted.writer_inside flag
    exact .inl ⟨u, .write, holds⟩
  · refine .inr ⟨u, fun same => ?_, notified⟩
    rw [same, waits] at notified
    cases notified

/-- In every state that any number of threads can reach a waiting writer waits for
somebody, a waiting reader waits for a counted writer, and so the threads are
never all blocked with nobody inside. -/
theorem no_lost_wakeup {history : List (Action Thread)} {s : WfirstRwLock Thread}
    (run : Reached (fun _ _ => True) Steps create history s) :
    (∀ t, s.place t = .waiting .write →
      (∃ u mode, s.place u = .holding mode) ∨ ∃ u, u ≠ t ∧ s.place u = .notified .write) ∧
      (∀ t, s.place t = .waiting .read → 0 < s.writeCnt) ∧
      ¬ ((∃ t mode, s.place t = .waiting mode) ∧
        ∀ t, s.place t = .outside ∨ ∃ mode, s.place t = .waiting mode) := by
  have counted := reached_counted run
  have awaited := reached_awaited run
  refine ⟨fun t => waiting_writer counted awaited, awaited.readers, ?_⟩
  rintro ⟨⟨t, mode, waits⟩, blocked⟩
  have no_writer : ∀ u, s.place u ≠ .waiting .write := by
    intro u writer
    obtain ⟨v, mode, holds⟩ | ⟨v, -, notified⟩ := waiting_writer counted awaited writer
    · obtain outside | ⟨mode', waits'⟩ := blocked v <;> simp_all
    · obtain outside | ⟨mode', waits'⟩ := blocked v <;> simp_all
  cases mode with
  | write => exact no_writer t waits
  | read =>
      have writers := awaited.readers t waits
      rw [counted.writeCnt] at writers
      obtain ⟨u, wants⟩ := census_pos.mp writers
      obtain outside | ⟨mode', waits'⟩ := blocked u
      · simp [outside, Place.wantsWrite] at wants
      · cases mode' with
        | read => simp [waits', Place.wantsWrite] at wants
        | write => exact no_writer u waits'

/-- A second writer is notified, and a third comes before it looks. -/
def bargingWriterRun : List (Action (Fin 4)) :=
  [.lock 0 .write, .lock 1 .write, .unlock 0 (some 1), .lock 2 .write, .wake 1, .lock 3 .read]

theorem bargingWriterRun_no_lost_wakeup : ∃ s, last step create bargingWriterRun = some s ∧
    s.place 1 = .waiting .write ∧
    ((∃ u mode, s.place u = .holding mode) ∨ ∃ u, u ≠ 1 ∧ s.place u = .notified .write) := by
  have waiting : (last step create bargingWriterRun).map (fun s => s.place 1) =
      some (.waiting .write) := by decide
  obtain ⟨s, run, waits⟩ := Option.map_eq_some_iff.mp waiting
  exact ⟨s, run, waits, (no_lost_wakeup (reached_last run)).1 1 waits⟩

end FysobEngine.Common.WfirstRwLock
