import FysobEngine.Common.WfirstRwLock

/-!
# Who is inside the writer-first lock

The counters say how many readers hold the lock and how many writers hold it or
wait, and the flag says whether a writer holds it.
-/

namespace FysobEngine.Common.WfirstRwLock

open Foundation.Census Foundation.Runs

variable {Thread : Type} [DecidableEq Thread] [Fintype Thread]

/-! ## What a step can do -/

/-- A thread looks at a predicate, as a newcomer or again, or it unlocks. -/
inductive Turn (s : WfirstRwLock Thread) : WfirstRwLock Thread → Prop where
  | awaitRead (t : Thread) (idle : (s.place t).reads = false)
      (calm : (s.place t).wantsWrite = false) : Turn s (s.awaitRead t)
  | writeLock (t : Thread) (outside : s.place t = .outside) : Turn s (s.writeLock t)
  | awaitWrite (t : Thread) (waits : (s.place t).wantsWrite = true)
      (idle : (s.place t).writes = false) : Turn s (s.awaitWrite t)
  | readUnlock {s' : WfirstRwLock Thread} (t : Thread) (woken : Option Thread)
      (holds : s.place t = .holding .read) (done : s.readUnlock t woken = some s') : Turn s s'
  | writeUnlock {s' : WfirstRwLock Thread} (t : Thread) (woken : Option Thread)
      (holds : s.place t = .holding .write) (done : s.writeUnlock t woken = some s') : Turn s s'

theorem Steps.turn {s s' : WfirstRwLock Thread} {action : Action Thread}
    (step : s.Steps action s') : Turn s s' := by
  unfold Steps WfirstRwLock.step at step
  cases action with
  | lock t mode =>
      dsimp only at step
      split at step
      · rename_i outside
        cases mode with
        | read =>
            cases step
            exact .awaitRead t (by simp [outside, Place.reads])
              (by simp [outside, Place.wantsWrite])
        | write =>
            cases step
            exact .writeLock t outside
      · cases step
  | wake t =>
      dsimp only at step
      split at step
      all_goals first
        | cases step
          rename_i here
          exact .awaitRead t (by simp [here, Place.reads]) (by simp [here, Place.wantsWrite])
        | cases step
          rename_i here
          exact .awaitWrite t (by simp [here, Place.wantsWrite]) (by simp [here, Place.writes])
        | cases step
  | unlock t woken =>
      dsimp only at step
      split at step
      · rename_i holds
        exact .readUnlock t woken holds step
      · rename_i holds
        exact .writeUnlock t woken holds step
      all_goals cases step

/-- A reader has left, and nobody has been notified yet. -/
def withoutReader (s : WfirstRwLock Thread) (t : Thread) : WfirstRwLock Thread :=
  { s.move t .outside with readCnt := decrement s.readCnt }

/-- A writer has left and has cleared the flag, and nobody has been notified yet. -/
def withoutWriter (s : WfirstRwLock Thread) (t : Thread) : WfirstRwLock Thread :=
  { s.move t .outside with writeCnt := decrement s.writeCnt, writeFlag := false }

/-- A writer that has been counted and has not looked yet. -/
def withWriter (s : WfirstRwLock Thread) (t : Thread) : WfirstRwLock Thread :=
  { s.move t (.waiting .write) with writeCnt := s.writeCnt + 1 }

omit [Fintype Thread] in
/-- A writer is counted before it looks. -/
theorem writeLock_eq (s : WfirstRwLock Thread) (t : Thread) :
    s.writeLock t = (s.withWriter t).awaitWrite t := by
  simp [writeLock, withWriter, awaitWrite, move]

theorem readUnlock_cases {s s' : WfirstRwLock Thread} {t : Thread} {woken : Option Thread}
    (done : s.readUnlock t woken = some s') :
    0 < (s.withoutReader t).writeCnt ∧ (s.withoutReader t).notifyOne woken = some s' ∨
      ((s.withoutReader t).readCnt ≠ 0 ∨ (s.withoutReader t).writeCnt = 0) ∧
        s' = s.withoutReader t := by
  unfold readUnlock at done
  dsimp only at done
  split at done
  · rename_i last
    exact .inl ⟨last.2, done⟩
  · rename_i more
    cases done
    refine .inr ⟨?_, rfl⟩
    by_cases none : (s.withoutReader t).readCnt = 0
    · exact .inr (Nat.eq_zero_of_not_pos fun writers => more ⟨none, writers⟩)
    · exact .inl none

/-- The flag goes down behind the notification, which does not look at it. -/
theorem writeUnlock_cases {s s' : WfirstRwLock Thread} {t : Thread} {woken : Option Thread}
    (done : s.writeUnlock t woken = some s') :
    (s.withoutWriter t).writeCnt = 0 ∧ s' = (s.withoutWriter t).notifyAll ∨
      0 < (s.withoutWriter t).writeCnt ∧ (s.withoutWriter t).notifyOne woken = some s' := by
  unfold writeUnlock at done
  dsimp only at done
  split at done
  · rename_i none
    cases done
    exact .inl ⟨none, rfl⟩
  · rename_i more
    obtain ⟨notified, passed, last⟩ := Option.bind_eq_some_iff.mp done
    cases last
    refine .inr ⟨Nat.pos_of_ne_zero more, ?_⟩
    cases woken with
    | none =>
        rw [notifyOne] at passed ⊢
        split at passed
        · rename_i nobody
          cases passed
          exact if_pos nobody
        · cases passed
    | some u =>
        rw [notifyOne] at passed ⊢
        split at passed
        · rename_i waits
          cases passed
          exact if_pos waits
        · cases passed

/-! ## The counters -/

/-- The counters and the flag are those of the threads' places. -/
structure Counted (s : WfirstRwLock Thread) : Prop where
  readCnt : s.readCnt = census s.place Place.reads
  writeCnt : s.writeCnt = census s.place Place.wantsWrite
  writeFlag : census s.place Place.writes = s.writeFlag.toNat
  apart : s.writeFlag = true → s.readCnt = 0

/-- A thread that waits may have been notified, or may have looked in vain; nothing
else has changed. -/
structure Stirred (s s' : WfirstRwLock Thread) : Prop where
  readCnt : s'.readCnt = s.readCnt
  writeCnt : s'.writeCnt = s.writeCnt
  writeFlag : s'.writeFlag = s.writeFlag
  reads : ∀ t, (s'.place t).reads = (s.place t).reads
  wantsWrite : ∀ t, (s'.place t).wantsWrite = (s.place t).wantsWrite
  writes : ∀ t, (s'.place t).writes = (s.place t).writes

omit [Fintype Thread] in
theorem move_stirred {s : WfirstRwLock Thread} {t : Thread} {new : Place}
    (reads : new.reads = (s.place t).reads) (wantsWrite : new.wantsWrite = (s.place t).wantsWrite)
    (writes : new.writes = (s.place t).writes) : Stirred s (s.move t new) := by
  have elsewhere : ∀ kind : Place → Bool, kind new = kind (s.place t) →
      ∀ u, kind ((s.move t new).place u) = kind (s.place u) := by
    intro kind same u
    by_cases here : u = t
    · subst here
      simpa [move] using same
    · simp [move, Function.update_of_ne here]
  exact ⟨rfl, rfl, rfl, elsewhere _ reads, elsewhere _ wantsWrite, elsewhere _ writes⟩

theorem notifyOne_stirred {s s' : WfirstRwLock Thread} {woken : Option Thread}
    (done : s.notifyOne woken = some s') : Stirred s s' := by
  cases woken with
  | none =>
      rw [notifyOne] at done
      split at done
      · cases done
        exact ⟨rfl, rfl, rfl, fun _ => rfl, fun _ => rfl, fun _ => rfl⟩
      · cases done
  | some t =>
      rw [notifyOne] at done
      split at done
      · rename_i waits
        cases done
        exact move_stirred (by rw [waits]; rfl) (by rw [waits]; rfl) (by rw [waits]; rfl)
      · cases done

omit [DecidableEq Thread] [Fintype Thread] in
theorem notifyAll_stirred (s : WfirstRwLock Thread) : Stirred s s.notifyAll := by
  have renamed : ∀ kind : Place → Bool, kind (.notified .read) = kind (.waiting .read) →
      ∀ t, kind (s.notifyAll.place t) = kind (s.place t) := by
    intro kind same t
    by_cases waits : s.place t = .waiting .read <;> simp [notifyAll, waits, same]
  exact ⟨rfl, rfl, rfl, renamed _ rfl, renamed _ rfl, renamed _ rfl⟩

omit [DecidableEq Thread] in
theorem Counted.stirred {s s' : WfirstRwLock Thread} (counted : Counted s)
    (stirred : Stirred s s') : Counted s' where
  readCnt := by rw [stirred.readCnt, census_congr stirred.reads, counted.readCnt]
  writeCnt := by rw [stirred.writeCnt, census_congr stirred.wantsWrite, counted.writeCnt]
  writeFlag := by rw [stirred.writeFlag, census_congr stirred.writes, counted.writeFlag]
  apart := by
    rw [stirred.writeFlag, stirred.readCnt]
    exact counted.apart

theorem wantsWrite_of_writes {p : Place} (writes : p.writes = true) : p.wantsWrite = true := by
  cases p with
  | holding mode => cases mode <;> simp_all [Place.writes, Place.wantsWrite]
  | _ => cases writes

theorem reads_of_wantsWrite {p : Place} (wants : p.wantsWrite = true) : p.reads = false := by
  cases p with
  | holding mode => cases mode <;> simp_all [Place.reads, Place.wantsWrite]
  | _ => rfl

theorem writes_of_calm {p : Place} (calm : p.wantsWrite = false) : p.writes = false := by
  cases writes : p.writes with
  | false => rfl
  | true => exact absurd (wantsWrite_of_writes writes) (by simp [calm])

theorem decrement_of_eq {count before : Nat} (eq : count = before + 1) :
    decrement count = before := by
  simp [decrement, eq]

omit [DecidableEq Thread] in
/-- While no writer is counted none holds the lock. -/
theorem Counted.unflagged {s : WfirstRwLock Thread} (counted : Counted s)
    (none : s.writeCnt = 0) : s.writeFlag = false := by
  have within := census_mono s.place (fun p => wantsWrite_of_writes (p := p))
  rw [← counted.writeCnt, counted.writeFlag, none] at within
  cases flag : s.writeFlag with
  | false => rfl
  | true => simp [flag] at within

omit [DecidableEq Thread] in
theorem Counted.flagged {s : WfirstRwLock Thread} (counted : Counted s) {t : Thread}
    (writer : s.place t = .holding .write) : s.writeFlag = true := by
  have writers : 0 < census s.place Place.writes := census_pos.mpr ⟨t, by rw [writer]; rfl⟩
  cases flag : s.writeFlag with
  | true => rfl
  | false => simp [counted.writeFlag, flag] at writers

omit [DecidableEq Thread] in
theorem Counted.no_reader_beside {s : WfirstRwLock Thread} (counted : Counted s) {t u : Thread}
    (writer : s.place t = .holding .write) : s.place u ≠ .holding .read := by
  intro reader
  have readers : 0 < census s.place Place.reads := census_pos.mpr ⟨u, by rw [reader]; rfl⟩
  rw [← counted.readCnt, counted.apart (counted.flagged writer)] at readers
  exact absurd readers (Nat.lt_irrefl 0)

omit [DecidableEq Thread] in
theorem create_counted : Counted (create : WfirstRwLock Thread) where
  readCnt := (census_eq_zero.mpr fun _ => rfl).symm
  writeCnt := (census_eq_zero.mpr fun _ => rfl).symm
  writeFlag := census_eq_zero.mpr fun _ => rfl
  apart := fun impossible => by cases impossible

theorem awaitRead_counted {s : WfirstRwLock Thread} {t : Thread} (counted : Counted s)
    (idle : (s.place t).reads = false) (calm : (s.place t).wantsWrite = false) :
    Counted (s.awaitRead t) := by
  have silent := writes_of_calm calm
  unfold awaitRead
  split
  · rename_i none
    have reads := census_update s.place Place.reads t (.holding .read)
    have wants := census_update s.place Place.wantsWrite t (.holding .read)
    have writes := census_update s.place Place.writes t (.holding .read)
    rw [idle] at reads
    rw [calm] at wants
    rw [silent] at writes
    refine ⟨?_, counted.writeCnt.trans wants.symm, writes.trans counted.writeFlag, ?_⟩
    · exact (congrArg (· + 1) counted.readCnt).trans reads.symm
    · intro flag
      exact absurd flag (by simp [move, counted.unflagged none])
  · exact counted.stirred (move_stirred idle.symm calm.symm silent.symm)

theorem awaitWrite_counted {s : WfirstRwLock Thread} {t : Thread} (counted : Counted s)
    (waits : (s.place t).wantsWrite = true) (idle : (s.place t).writes = false) :
    Counted (s.awaitWrite t) := by
  have silent := reads_of_wantsWrite waits
  unfold awaitWrite
  split
  · rename_i free
    have reads := census_update s.place Place.reads t (.holding .write)
    have wants := census_update s.place Place.wantsWrite t (.holding .write)
    have writes := census_update s.place Place.writes t (.holding .write)
    rw [silent] at reads
    rw [waits] at wants
    rw [idle, counted.writeFlag, free.2] at writes
    refine ⟨counted.readCnt.trans reads.symm, ?_, writes, fun _ => free.1⟩
    exact counted.writeCnt.trans (Nat.add_right_cancel wants).symm
  · exact counted.stirred (move_stirred silent.symm waits.symm idle.symm)

theorem withWriter_counted {s : WfirstRwLock Thread} {t : Thread} (counted : Counted s)
    (outside : s.place t = .outside) : Counted (s.withWriter t) := by
  have reads := census_update s.place Place.reads t (.waiting .write)
  have wants := census_update s.place Place.wantsWrite t (.waiting .write)
  have writes := census_update s.place Place.writes t (.waiting .write)
  rw [outside] at reads wants writes
  exact ⟨counted.readCnt.trans reads.symm, (congrArg (· + 1) counted.writeCnt).trans wants.symm,
    writes.trans counted.writeFlag, counted.apart⟩

theorem withoutReader_counted {s : WfirstRwLock Thread} {t : Thread} (counted : Counted s)
    (holds : s.place t = .holding .read) : Counted (s.withoutReader t) := by
  have reads := census_update s.place Place.reads t .outside
  have wants := census_update s.place Place.wantsWrite t .outside
  have writes := census_update s.place Place.writes t .outside
  rw [holds] at reads wants writes
  refine ⟨decrement_of_eq (counted.readCnt.trans reads.symm), counted.writeCnt.trans wants.symm,
    writes.trans counted.writeFlag, fun flag => ?_⟩
  have reader : 0 < s.readCnt := by
    rw [counted.readCnt, census_pos]
    exact ⟨t, by rw [holds]; rfl⟩
  exact absurd (counted.apart flag) (Nat.ne_of_gt reader)

theorem withoutWriter_counted {s : WfirstRwLock Thread} {t : Thread} (counted : Counted s)
    (holds : s.place t = .holding .write) : Counted (s.withoutWriter t) := by
  have reads := census_update s.place Place.reads t .outside
  have wants := census_update s.place Place.wantsWrite t .outside
  have writes := census_update s.place Place.writes t .outside
  rw [holds] at reads wants writes
  refine ⟨counted.readCnt.trans reads.symm, decrement_of_eq (counted.writeCnt.trans wants.symm),
    ?_, fun impossible => by cases impossible⟩
  rw [counted.writeFlag] at writes
  have few : s.writeFlag.toNat ≤ 1 := Bool.toNat_le _
  have one : census (s.withoutWriter t).place Place.writes + 1 = s.writeFlag.toNat := writes
  exact Nat.eq_zero_of_le_zero (by omega)

theorem Turn.counted {s s' : WfirstRwLock Thread} (turn : Turn s s') (counted : Counted s) :
    Counted s' := by
  cases turn with
  | awaitRead t idle calm => exact awaitRead_counted counted idle calm
  | awaitWrite t waits idle => exact awaitWrite_counted counted waits idle
  | writeLock t outside =>
      rw [writeLock_eq]
      exact awaitWrite_counted (withWriter_counted counted outside)
        (by simp [withWriter, move, Place.wantsWrite]) (by simp [withWriter, move, Place.writes])
  | readUnlock t woken holds done =>
      have left := withoutReader_counted counted holds
      obtain ⟨-, notified⟩ | ⟨-, rfl⟩ := readUnlock_cases done
      · exact left.stirred (notifyOne_stirred notified)
      · exact left
  | writeUnlock t woken holds done =>
      have left := withoutWriter_counted counted holds
      obtain ⟨-, rfl⟩ | ⟨-, notified⟩ := writeUnlock_cases done
      · exact left.stirred (notifyAll_stirred _)
      · exact left.stirred (notifyOne_stirred notified)

theorem reached_counted {history : List (Action Thread)} {s : WfirstRwLock Thread}
    (run : Reached (fun _ _ => True) Steps create history s) : Counted s :=
  run.invariant_all (fun _ _ _ counted _ step => step.turn.counted counted) create_counted

/-! ## Writers come first -/

/-- A thread comes to hold the read lock. -/
def AcquiresRead (s s' : WfirstRwLock Thread) (t : Thread) : Prop :=
  (s.place t).reads = false ∧ (s'.place t).reads = true

omit [Fintype Thread] in
theorem reads_of_move {s : WfirstRwLock Thread} {t u : Thread} (new : Place)
    (idle : new.reads = false) (reads : ((s.move t new).place u).reads = true) :
    (s.place u).reads = true := by
  by_cases here : u = t
  · subst here
    simp [move, idle] at reads
  · simpa [move, Function.update_of_ne here] using reads

omit [Fintype Thread] in
theorem reads_of_awaitWrite {s : WfirstRwLock Thread} {t u : Thread}
    (reads : ((s.awaitWrite t).place u).reads = true) : (s.place u).reads = true := by
  unfold awaitWrite at reads
  split at reads
  · exact reads_of_move (.holding .write) rfl reads
  · exact reads_of_move (.waiting .write) rfl reads

/-- While a writer is counted, whoever holds the read lock behind a step held it before. -/
theorem Turn.no_reader {s s' : WfirstRwLock Thread} (turn : Turn s s') (busy : 0 < s.writeCnt)
    {u : Thread} (reads : (s'.place u).reads = true) : (s.place u).reads = true := by
  cases turn with
  | awaitRead t idle calm =>
      rw [WfirstRwLock.awaitRead, if_neg (Nat.ne_of_gt busy)] at reads
      exact reads_of_move (.waiting .read) rfl reads
  | awaitWrite t waits idle => exact reads_of_awaitWrite reads
  | writeLock t outside =>
      rw [writeLock_eq] at reads
      have enrolled := reads_of_awaitWrite reads
      exact reads_of_move (.waiting .write) rfl enrolled
  | readUnlock t woken holds done =>
      refine reads_of_move (t := t) .outside rfl ?_
      obtain ⟨-, notified⟩ | ⟨-, rfl⟩ := readUnlock_cases done
      · exact ((notifyOne_stirred notified).reads u).symm.trans reads
      · exact reads
  | writeUnlock t woken holds done =>
      refine reads_of_move (t := t) .outside rfl ?_
      obtain ⟨-, rfl⟩ | ⟨-, notified⟩ := writeUnlock_cases done
      · exact ((notifyAll_stirred _).reads u).symm.trans reads
      · exact ((notifyOne_stirred notified).reads u).symm.trans reads

/-- In every state that any number of threads can reach, one writer at most holds
the lock, and no reader beside it; the counters count; and from a writer's
increment until the count is zero again no step gives the lock to a reader. -/
theorem writer_first {history : List (Action Thread)} {s : WfirstRwLock Thread}
    (run : Reached (fun _ _ => True) Steps create history s) :
    (∀ t u, s.place t = .holding .write → s.place u = .holding .write → t = u) ∧
      (∀ t u, s.place t = .holding .write → s.place u ≠ .holding .read) ∧
      s.readCnt = census s.place Place.reads ∧
      s.writeCnt = census s.place Place.wantsWrite ∧
      ∀ t counted, s.Steps (.lock t .write) counted →
        counted.writeCnt = s.writeCnt + 1 ∧
        ∀ between current, Reached (fun s _ => 0 < s.writeCnt) Steps counted between current →
          0 < current.writeCnt → ∀ action after, current.Steps action after →
            ∀ u, ¬ AcquiresRead current after u := by
  have counts := reached_counted run
  have few : census s.place Place.writes ≤ 1 := by
    rw [counts.writeFlag]
    exact Bool.toNat_le _
  refine ⟨fun t u first second => ?_, fun t u writer reader => ?_, counts.readCnt,
    counts.writeCnt, fun t counted lock => ⟨?_, ?_⟩⟩
  · exact eq_of_census_le_one few (by rw [first]; rfl) (by rw [second]; rfl)
  · exact counts.no_reader_beside writer reader
  · have outside : s.place t = .outside := by
      by_contra inside
      simp [Steps, WfirstRwLock.step, inside] at lock
    simp only [Steps, WfirstRwLock.step, outside, if_true, Option.some.injEq] at lock
    rw [← lock, writeLock, awaitWrite]
    split <;> rfl
  · intro between current _ busy action after step u acquires
    have before := step.turn.no_reader busy acquires.2
    rw [acquires.1] at before
    cases before

/-- A writer and then a reader come while a reader is inside; the reader leaves. -/
def waitingWriterRun : List (Action (Fin 3)) :=
  [.lock 0 .read, .lock 1 .write, .lock 2 .read, .unlock 0 (some 1), .wake 1]

theorem waitingWriterRun_writer_first : ∃ s, last step create waitingWriterRun = some s ∧
    s.place 1 = .holding .write ∧ (∀ u, s.place u ≠ .holding .read) ∧
    s.writeCnt = census s.place Place.wantsWrite := by
  have writes : (last step create waitingWriterRun).map (fun s => s.place 1) =
      some (.holding .write) := by decide
  obtain ⟨s, run, writer⟩ := Option.map_eq_some_iff.mp writes
  have first := writer_first (reached_last run)
  exact ⟨s, run, writer, fun u => first.2.1 1 u writer, first.2.2.2.1⟩

end FysobEngine.Common.WfirstRwLock
