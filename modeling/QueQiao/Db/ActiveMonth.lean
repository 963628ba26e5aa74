import QueQiao.Db.RotateLocked
import QueQiao.Db.WriterEffects

namespace QueQiao.ActiveMonth

open Lib.Transition Audit Rotation

variable {α : Type*}

/-- The local calendar: the months of a clock and of a stored time, and where a month and the one
after it begin. -/
structure Months where
  yyyymm : ℤ → ℤ
  yyyymmFromMs : ℤ → Option ℤ
  monthStart : ℤ → Option ℤ
  nextMonthBoundaryMs : ℤ → ℤ

/-- Where the task that holds `db_rotation_lock` waits: for the data month of `check_and_rotate`, or
inside of `rotate_locked` for the writer to take a command or to answer it, or for the new
database. -/
inductive Stage
  | checking (nowMonth : ℤ)
  | sealQueued
  | sealing
  | sealed (ok : Bool)
  | renamed
  | resumeQueued (store : ℕ) (rotated : Bool)
  | resuming (rotated : Bool)
  | resumed (rotated ok : Bool)
  deriving DecidableEq, Repr

/-- `caller` is the record whose `log_request` rotates; the background check has none. -/
structure Rotating (α : Type*) where
  caller : Option α
  stage : Stage

structure AppState (α : Type*) where
  clock : ℤ
  writer : AuditWriter α
  created : ℕ
  atPath : Bool
  db : ℕ
  activeYyyymm : ℤ
  nextMonthBoundaryMs : ℤ
  rotation : Option (Rotating α)
  -- the records whose `rotate_if_needed` has not returned, and those that are about to be enqueued
  arrived : List α
  checked : List α

inductive Event (α : Type*)
  | tick (now : ℤ)
  | arrive (item : α)
  | pass (i : ℕ)
  | lock (i : ℕ)
  | enqueue (i : ℕ)
  | check
  | data (ok : Bool)
  | command
  | closed
  | rename (ok : Bool)
  | initDb (outcome : InitDb)
  | finish
  | writer (e : Audit.Event α)

variable (months : Months) (timeMs : α → Option ℤ)

def currentDataYyyymm (table : Table α) : Option ℤ :=
  ((table.items.filterMap timeMs).max?).bind months.yyyymmFromMs

/-- The state after `init_rotation_state`, on the database that is opened at the start. -/
def start (clock : ℤ) (table : Table α) (ok : Bool) : AppState α where
  clock := clock
  writer := Audit.start (fun _ ↦ table) 0
  created := 1
  atPath := true
  db := 0
  activeYyyymm :=
    ((if ok then currentDataYyyymm months timeMs table else none).getD (months.yyyymm clock))
  nextMonthBoundaryMs := months.nextMonthBoundaryMs
    ((if ok then currentDataYyyymm months timeMs table else none).getD (months.yyyymm clock))
  rotation := none
  arrived := []
  checked := []

namespace AppState

variable (s : AppState α)

def stage : Option Stage := s.rotation.map (·.stage)

def rows : List α := (s.writer.files s.db).items

def setMonth (month : ℤ) : AppState α :=
  { s with activeYyyymm := month, nextMonthBoundaryMs := months.nextMonthBoundaryMs month }

/-- The lock is released, and the record that has waited for it goes on to the queue. -/
def release : AppState α :=
  { s with
    rotation := none
    checked := s.checked ++ (s.rotation.bind (·.caller)).toList }

def moveTo (stage : Stage) : AppState α :=
  { s with rotation := s.rotation.map fun r ↦ { r with stage := stage } }

def rotateLocked : AppState α := if s.atPath then s.moveTo .sealQueued else s.release

def hear : AppState α :=
  if s.writer.pc = .select then
    match s.stage with
    | some .sealing => s.moveTo (.sealed (s.writer.reply = some true))
    | some (.resuming rotated) => s.moveTo (.resumed rotated (s.writer.reply = some true))
    | _ => s
  else s

/-- What `check_and_rotate` does with the month of the data. -/
def checkData (nowMonth : ℤ) : Option ℤ → AppState α
  | some dataMonth =>
    if dataMonth < nowMonth then s.rotateLocked
    else if dataMonth ≠ s.activeYyyymm then (s.setMonth months dataMonth).release
    else s.release
  | none => s.release

def createDb : AppState α :=
  { s with
    writer := { s.writer with files := Function.update s.writer.files s.created .empty }
    created := s.created + 1
    atPath := true
    db := s.created }

def initDb : InitDb → AppState α
  | .ok => s.createDb.moveTo (.resumeQueued s.created true)
  | .failed fileCreated => { s with atPath := fileCreated }.release

end AppState

/-- The steps of the writer that are neither an `enqueue` nor a command of a rotation. -/
def ownStep : Audit.Event α → Bool
  | .enqueue _ | .command .seal | .command (.resume _) => false
  | _ => true

def Stage.command : Stage → Option (WriterCmd × Stage)
  | .sealQueued => some (.seal, .sealing)
  | .resumeQueued store rotated => some (.resume store, .resuming rotated)
  | _ => none

/-- The stage after a command that a stopped writer does not take. -/
def Stage.refused : Stage → Option Stage
  | .sealQueued => some (.sealed false)
  | .resumeQueued _ rotated => some (.resumed rotated false)
  | _ => none

def step (cfg : WriterConfig) (s : AppState α) : Event α → Option (AppState α)
  | .tick now => some { s with clock := now }
  | .arrive item =>
    if timeMs item = some s.clock then some { s with arrived := s.arrived ++ [item] } else none
  | .pass i =>
    (s.arrived[i]?.filter fun item ↦ (timeMs item).any (· < s.nextMonthBoundaryMs)).map fun item ↦
      { s with arrived := s.arrived.eraseIdx i, checked := s.checked ++ [item] }
  | .lock i =>
    if s.rotation.isSome then none
    else
      (s.arrived[i]?.filter fun item ↦ (timeMs item).any (s.nextMonthBoundaryMs ≤ ·)).map fun item ↦
        { s with
          arrived := s.arrived.eraseIdx i
          rotation := some ⟨some item, .sealQueued⟩ }.rotateLocked
  | .enqueue i =>
    s.checked[i]?.map fun item ↦
      { s with checked := s.checked.eraseIdx i, writer := s.writer.enqueue cfg item }
  | .check =>
    if s.rotation.isSome then none
    else some { s with rotation := some ⟨none, .checking (months.yyyymm s.clock)⟩ }
  | .data ok =>
    match s.stage with
    | some (.checking nowMonth) =>
      some (s.checkData months nowMonth
        (if ok then currentDataYyyymm months timeMs (s.writer.files s.db) else none))
    | _ => none
  | .command =>
    (s.stage.bind Stage.command).bind fun (cmd, stage) ↦
      (Audit.step cfg s.writer (.command cmd)).map fun writer ↦
        ({ s with writer := writer }.moveTo stage).hear
  | .closed =>
    if s.writer.pc = .stopped then
      (s.stage.bind Stage.refused).map s.moveTo
    else none
  | .rename ok =>
    match s.stage with
    | some (.sealed true) =>
      some (if ok then { s with atPath := false }.moveTo .renamed
        else s.moveTo (.resumeQueued s.db false))
    | _ => none
  | .initDb outcome =>
    match s.stage with
    | some .renamed => some (s.initDb outcome)
    | _ => none
  | .finish =>
    match s.stage with
    | some (.sealed false) => some s.release
    | some (.resumed rotated ok) =>
      some (if rotated && ok then (s.setMonth months (months.yyyymm s.clock)).release
        else s.release)
    | _ => none
  | .writer e =>
    if ownStep e then
      (Audit.step cfg s.writer e).map fun writer ↦ { s with writer := writer }.hear
    else none

def inWriter (w : AuditWriter α) : List α := w.waiting ++ (w.queue ++ w.batch)

/-- The rows of the active store and what can come to it from the queue. -/
def AppState.held (s : AppState α) : List α := s.rows ++ inWriter s.writer

def notBefore (month : ℤ) (item : α) : Bool :=
  (timeMs item).all fun t ↦ (months.monthStart month).all (· ≤ t)

def AppState.newMonth (s : AppState α) : Event α → Option ℤ
  | .data true =>
    match s.stage with
    | some (.checking nowMonth) =>
      (currentDataYyyymm months timeMs (s.writer.files s.db)).filter (nowMonth ≤ ·)
    | _ => none
  | .finish =>
    match s.stage with
    | some (.resumed true true) => some (months.yyyymm s.clock)
    | _ => none
  | _ => none

/-- The clock does not go back, no record is enqueued that is from before the active month, and no
month becomes the active one that begins after a record of the store or the queue. -/
def AppState.keepsMonth (s : AppState α) : Event α → Bool
  | .tick now => s.clock ≤ now
  | .enqueue i => (s.checked[i]?).all (notBefore months timeMs s.activeYyyymm)
  | e => (s.newMonth months timeMs e).all fun month ↦ s.held.all (notBefore months timeMs month)

section Held

variable {w w' : AuditWriter α} {item : α}

@[simp] theorem inWriter_drained (ok : Bool) (drain : Drain) :
    inWriter (w.drained ok drain) = inWriter w := by
  obtain ⟨_, _, h⟩ := exists_drained_eq (w := w) ok drain
  rw [h]
  rfl

@[simp] theorem inWriter_flushed (ok : Bool) (caller : Option (Drain × Bool)) :
    inWriter (w.flushed ok caller) = inWriter w := by
  obtain ⟨_, _, h⟩ := exists_flushed_eq (w := w) ok caller
  rw [h]
  rfl

@[simp] theorem inWriter_flushAndReset (caller : Option (Drain × Bool)) :
    inWriter (w.flushAndReset caller) = inWriter w := by
  obtain ⟨_, _, h⟩ := exists_flushAndReset_eq (w := w) caller
  rw [h]
  rfl

@[simp] theorem inWriter_runCommand (cmd : WriterCmd) : inWriter (w.runCommand cmd) = inWriter w := by
  obtain ⟨_, _, h⟩ := exists_runCommand_eq (w := w) cmd
  rw [h]
  rfl

theorem mem_inWriter_receive {x : α} {queue : List α} (hqueue : w.queue = x :: queue)
    (h : item ∈ inWriter { w with queue := queue, batch := w.batch ++ [x] }) : item ∈ inWriter w := by
  simp only [inWriter, hqueue, List.mem_append, List.mem_cons, List.not_mem_nil, or_false] at h ⊢
  tauto

theorem mem_inWriter_of_subset (h : item ∈ inWriter w') (hwaiting : w'.waiting ⊆ w.waiting)
    (hqueue : w'.queue ⊆ w.queue) (hbatch : w'.batch ⊆ w.batch) : item ∈ inWriter w := by
  simp only [inWriter, List.mem_append] at h ⊢
  exact h.imp (hwaiting ·) fun h ↦ h.imp (hqueue ·) (hbatch ·)

theorem mem_inWriter_flushWithRetry {store : ℕ} {caller : Option (Drain × Bool)} {attempt : ℕ}
    {outcome : Attempt} (h : item ∈ inWriter (w.flushWithRetry store caller attempt outcome)) :
    item ∈ inWriter w := by
  have hdrop (h : item ∈ inWriter w.dropBatch) : item ∈ inWriter w :=
    mem_inWriter_of_subset h (List.Subset.refl _) (List.Subset.refl _) (List.nil_subset _)
  cases outcome with
  | committed =>
    simp only [AuditWriter.flushWithRetry] at h
    split at h
    · rw [inWriter_flushed] at h
      exact mem_inWriter_of_subset h (List.Subset.refl _) (List.Subset.refl _) (List.nil_subset _)
    · rw [inWriter_flushed] at h
      exact hdrop h
  | retryable =>
    simp only [AuditWriter.flushWithRetry] at h
    split at h
    · exact h
    · rw [inWriter_flushed] at h
      exact hdrop h
  | failed =>
    rw [AuditWriter.flushWithRetry, inWriter_flushed] at h
    exact hdrop h

theorem mem_inWriter_drainStep {cfg : WriterConfig} {drain : Drain}
    (h : item ∈ inWriter (w.drainStep cfg drain)) : item ∈ inWriter w := by
  unfold AuditWriter.drainStep at h
  split at h
  · rename_i hqueue
    split at h
    · exact mem_inWriter_receive hqueue h
    · split at h
      · rwa [inWriter_drained] at h
      · rwa [inWriter_flushAndReset] at h
  · split at h
    · rwa [inWriter_drained] at h
    · rwa [inWriter_flushAndReset] at h

theorem mem_inWriter_of_step {cfg : WriterConfig} {e : Audit.Event α}
    (hs : Audit.step cfg w e = some w') (h : item ∈ inWriter w') :
    item ∈ inWriter w ∨ e = .enqueue item := by
  cases Stepped.of_step hs with
  | enqueue x =>
    simp only [AuditWriter.enqueue] at h
    split at h
    · exact .inl h
    · split at h
      · simp only [inWriter, AuditWriter.accept, List.mem_append, List.mem_singleton] at h ⊢
        grind
      · simp only [inWriter, List.mem_append, List.mem_singleton] at h ⊢
        grind
  | @grant i x _ _ hitem =>
    have hx : x ∈ w.waiting := List.mem_of_getElem? hitem
    simp only [inWriter, AuditWriter.accept, List.mem_append, List.mem_singleton] at h ⊢
    rcases h with h | (h | rfl) | h
    · exact .inl (.inl (List.mem_of_mem_eraseIdx h))
    · exact .inl (.inr (.inl h))
    · exact .inl (.inl hx)
    · exact .inl (.inr (.inr h))
  | expire =>
    exact .inl (mem_inWriter_of_subset h List.eraseIdx_subset (List.Subset.refl _)
      (List.Subset.refl _))
  | recv _ _ hqueue =>
    left
    split at h
    · rw [inWriter_flushAndReset] at h
      exact mem_inWriter_receive hqueue h
    · exact mem_inWriter_receive hqueue h
  | timer =>
    rw [inWriter_flushAndReset] at h
    exact .inl h
  | command cmd =>
    rw [inWriter_runCommand] at h
    exact .inl h
  | drain => exact .inl (mem_inWriter_drainStep h)
  | attempt => exact .inl (mem_inWriter_flushWithRetry h)
  | checkpoint ok =>
    left
    cases ok <;> exact h
  | opened ok =>
    left
    cases ok <;> exact h
  | discard =>
    left
    unfold AuditWriter.discardStep at h
    split at h
    · rename_i hqueue
      refine mem_inWriter_of_subset h (List.Subset.refl _) ?_ (List.Subset.refl _)
      rw [hqueue]
      exact List.subset_cons_self _ _
    · exact mem_inWriter_of_subset h (List.Subset.refl _) (List.Subset.refl _) (List.nil_subset _)
  | reset ok =>
    left
    cases ok <;> exact h
  | hangup => exact .inl h
  | exit =>
    exact .inl (mem_inWriter_of_subset h (List.Subset.refl _) (List.nil_subset _)
      (List.nil_subset _))

theorem mem_files_of_step {cfg : WriterConfig} {e : Audit.Event α} {store : ℕ}
    (hs : Audit.step cfg w e = some w') (h : item ∈ (w'.files store).items) :
    item ∈ (w.files store).items ∨ item ∈ inWriter w := by
  have heffect := Effect.of_step hs
  replace h : item ∈ (w'.core.files store).items := h
  generalize w'.core = core at heffect h
  cases heffect with
  | @commit active table _ ht =>
    simp only [AuditWriter.core, AuditWriter.commit, Function.update_apply] at h
    split at h
    · rename_i hstore
      rw [Table.items, Table.rows_of_insertAll ht, List.map_append, map_snd_buildBatch,
        List.mem_append] at h
      rw [hstore]
      exact h.imp_right fun h ↦ List.mem_append_right _ (List.mem_append_right _ h)
    · exact .inl h
  | erase =>
    simp only [AuditWriter.core, AuditWriter.erase, Function.update_apply] at h
    split at h
    · cases h
    · exact .inl h
  | discard =>
    left
    unfold AuditWriter.discardStep at h
    split at h <;> exact h
  | _ => exact .inl h

end Held

section Month

variable {months timeMs} {s t : AppState α} {item : α}

namespace AppState

def records (s : AppState α) : List α :=
  s.arrived ++ (s.checked ++ (s.rotation.bind (·.caller)).toList)

/-- What a step that is not about the month leaves as it is. -/
structure Keeps (s t : AppState α) : Prop where
  clock : t.clock = s.clock
  writer : t.writer = s.writer
  db : t.db = s.db
  month : t.activeYyyymm = s.activeYyyymm
  records : t.records ⊆ s.records

theorem Keeps.refl (s : AppState α) : Keeps s s := ⟨rfl, rfl, rfl, rfl, List.Subset.refl _⟩

theorem Keeps.trans {u : AppState α} (h : Keeps s t) (h' : Keeps t u) : Keeps s u :=
  ⟨h'.clock.trans h.clock, h'.writer.trans h.writer, h'.db.trans h.db, h'.month.trans h.month,
    List.Subset.trans h'.records h.records⟩

theorem keeps_release (s : AppState α) : Keeps s s.release where
  clock := rfl
  writer := rfl
  db := rfl
  month := rfl
  records := by
    intro item h
    simpa only [release, AppState.records, Option.bind_none, Option.toList_none, List.append_nil]
      using h

theorem keeps_moveTo (s : AppState α) (stage : Stage) : Keeps s (s.moveTo stage) where
  clock := rfl
  writer := rfl
  db := rfl
  month := rfl
  records := by
    rw [AppState.records, moveTo, Option.bind_map]
    exact List.Subset.refl _

theorem keeps_rotateLocked (s : AppState α) : Keeps s s.rotateLocked := by
  rw [rotateLocked]
  split
  · exact keeps_moveTo _ _
  · exact keeps_release _

theorem keeps_hear (s : AppState α) : Keeps s s.hear := by
  rw [hear]
  split
  · split
    · exact keeps_moveTo _ _
    · exact keeps_moveTo _ _
    · exact .refl s
  · exact .refl s

end AppState

open AppState

variable (months timeMs) in
/-- What is held is from the active month on, and no record is later than the clock. -/
structure Current (s : AppState α) : Prop where
  month : ∀ item ∈ s.held, notBefore months timeMs s.activeYyyymm item = true
  held : ∀ item ∈ s.held, ∀ t, timeMs item = some t → t ≤ s.clock
  records : ∀ item ∈ s.records, ∀ t, timeMs item = some t → t ≤ s.clock

theorem Keeps.held (h : Keeps s t) : t.held = s.held := by
  rw [AppState.held, AppState.held, rows, rows, h.writer, h.db]

theorem Current.of_keeps (h : Current months timeMs s) (hk : Keeps s t) :
    Current months timeMs t where
  month := by
    rw [Keeps.held hk, hk.month]
    exact h.month
  held := by
    rw [Keeps.held hk, hk.clock]
    exact h.held
  records := by
    intro item hitem
    rw [hk.clock]
    exact h.records item (hk.records hitem)

theorem Current.setMonth (h : Current months timeMs s) {month : ℤ}
    (hmonth : ∀ item ∈ s.held, notBefore months timeMs month item = true) :
    Current months timeMs (s.setMonth months month) :=
  ⟨hmonth, h.held, h.records⟩

theorem Current.of_writer (h : Current months timeMs s) {w : AuditWriter α}
    (hheld : ({ s with writer := w } : AppState α).held ⊆ s.held) :
    Current months timeMs { s with writer := w } :=
  ⟨fun item hitem ↦ h.month item (hheld hitem), fun item hitem ↦ h.held item (hheld hitem),
    h.records⟩

theorem subset_of_step {cfg : WriterConfig} {e : Audit.Event α} {w : AuditWriter α}
    (hs : Audit.step cfg s.writer e = some w) (hitem : item ∈ ({ s with writer := w } : AppState α).held) :
    item ∈ s.held ∨ e = .enqueue item := by
  rw [AppState.held, List.mem_append] at hitem
  rw [AppState.held, List.mem_append]
  rcases hitem with hrow | hin
  · exact .inl (mem_files_of_step hs hrow)
  · exact (mem_inWriter_of_step hs hin).imp_left .inr

theorem Current.of_ownStep (h : Current months timeMs s) {cfg : WriterConfig} {e : Audit.Event α}
    {w : AuditWriter α} (hs : Audit.step cfg s.writer e = some w) (hown : ∀ item, e ≠ .enqueue item) :
    Current months timeMs { s with writer := w } :=
  h.of_writer fun item hitem ↦ (subset_of_step hs hitem).resolve_right (hown item)

theorem keeps_erase {i : ℕ} (hitem : s.arrived[i]? = some item) :
    Keeps s { s with arrived := s.arrived.eraseIdx i, checked := s.checked ++ [item] } where
  clock := rfl
  writer := rfl
  db := rfl
  month := rfl
  records := by
    have hmem := List.mem_of_getElem? hitem
    intro x hx
    simp only [AppState.records, List.mem_append, List.mem_singleton] at hx ⊢
    rcases hx with hx | (hx | rfl) | hx
    · exact .inl (List.mem_of_mem_eraseIdx hx)
    · exact .inr (.inl hx)
    · exact .inl hmem
    · exact .inr (.inr hx)

theorem keeps_lock {i : ℕ} (hitem : s.arrived[i]? = some item) {stage : Stage} :
    Keeps s { s with
      arrived := s.arrived.eraseIdx i
      rotation := some ⟨some item, stage⟩ } where
  clock := rfl
  writer := rfl
  db := rfl
  month := rfl
  records := by
    have hmem := List.mem_of_getElem? hitem
    intro x hx
    simp only [AppState.records, List.mem_append, Option.bind_some, Option.toList_some,
      List.mem_singleton] at hx ⊢
    rcases hx with hx | hx | rfl
    · exact .inl (List.mem_of_mem_eraseIdx hx)
    · exact .inr (.inl hx)
    · exact .inl hmem

theorem Current.arrive (h : Current months timeMs s) (htime : timeMs item = some s.clock) :
    Current months timeMs { s with arrived := s.arrived ++ [item] } where
  month := h.month
  held := h.held
  records := by
    intro x hx t ht
    simp only [AppState.records, List.append_assoc, List.mem_append, List.mem_singleton] at hx
    have hmem : x ∈ s.records ∨ x = item := by
      simp only [AppState.records, List.mem_append]
      tauto
    rcases hmem with hmem | rfl
    · exact h.records x hmem t ht
    · exact Int.le_of_eq (Option.some.inj (ht.symm.trans htime))

theorem Current.enqueue (h : Current months timeMs s) {cfg : WriterConfig} {i : ℕ}
    (hitem : s.checked[i]? = some item)
    (hok : notBefore months timeMs s.activeYyyymm item = true) :
    Current months timeMs
      { s with checked := s.checked.eraseIdx i, writer := s.writer.enqueue cfg item } := by
  have hmem : item ∈ s.records :=
    List.mem_append_right _ (List.mem_append_left _ (List.mem_of_getElem? hitem))
  have hheld : ∀ x ∈ ({ s with writer := s.writer.enqueue cfg item } : AppState α).held,
      x ∈ s.held ∨ x = item := by
    intro x hx
    have hs : Audit.step cfg s.writer (.enqueue item) = some (s.writer.enqueue cfg item) := rfl
    refine (subset_of_step hs hx).imp_right fun heq ↦ ?_
    cases heq
    rfl
  refine ⟨fun x hx ↦ ?_, fun x hx ↦ ?_, fun x hx ↦ h.records x ?_⟩
  · rcases hheld x hx with hx | rfl
    · exact h.month x hx
    · exact hok
  · rcases hheld x hx with hx | rfl
    · exact h.held x hx
    · exact h.records x hmem
  · simp only [AppState.records, List.mem_append] at hx ⊢
    exact hx.imp_right fun hx ↦ hx.imp_left List.mem_of_mem_eraseIdx

theorem Current.checkData (h : Current months timeMs s) {nowMonth : ℤ} {dataMonth : Option ℤ}
    (hok : ∀ month, dataMonth = some month → nowMonth ≤ month →
      ∀ item ∈ s.held, notBefore months timeMs month item = true) :
    Current months timeMs (s.checkData months nowMonth dataMonth) := by
  cases dataMonth with
  | none => exact h.of_keeps (keeps_release s)
  | some month =>
    rw [AppState.checkData]
    split
    · exact h.of_keeps (keeps_rotateLocked s)
    · rename_i hlt
      split
      · exact (h.setMonth (hok month rfl (Int.not_lt.mp hlt))).of_keeps (keeps_release _)
      · exact h.of_keeps (keeps_release s)

theorem held_createDb (s : AppState α) : s.createDb.held = inWriter s.writer := by
  have hrows : s.createDb.rows = [] := by
    simp only [createDb, rows, Function.update_self]
    rfl
  rw [AppState.held, hrows]
  rfl

theorem Current.createDb (h : Current months timeMs s) : Current months timeMs s.createDb := by
  have hheld : s.createDb.held ⊆ s.held := by
    rw [held_createDb]
    exact List.subset_append_right _ _
  exact ⟨fun item hitem ↦ h.month item (hheld hitem), fun item hitem ↦ h.held item (hheld hitem),
    h.records⟩

theorem Current.initDb (h : Current months timeMs s) (outcome : InitDb) :
    Current months timeMs (s.initDb outcome) := by
  cases outcome with
  | ok => exact h.createDb.of_keeps (keeps_moveTo _ _)
  | failed fileCreated =>
    have hpath : Current months timeMs { s with atPath := fileCreated } :=
      ⟨h.month, h.held, h.records⟩
    exact hpath.of_keeps (keeps_release _)

theorem Current.rename (h : Current months timeMs s) (ok : Bool) :
    Current months timeMs (if ok then { s with atPath := false }.moveTo .renamed
      else s.moveTo (.resumeQueued s.db false)) := by
  have hpath : Current months timeMs { s with atPath := false } := ⟨h.month, h.held, h.records⟩
  split
  · exact hpath.of_keeps (keeps_moveTo _ _)
  · exact h.of_keeps (keeps_moveTo _ _)

theorem notBefore_of_newMonth {e : Event α} {month : ℤ} (hok : s.keepsMonth months timeMs e = true)
    (hnew : s.newMonth months timeMs e = some month) :
    ∀ item ∈ s.held, notBefore months timeMs month item = true := by
  cases e with
  | data ok =>
    simp only [keepsMonth, hnew, Option.all_some] at hok
    exact List.all_eq_true.mp hok
  | finish =>
    simp only [keepsMonth, hnew, Option.all_some] at hok
    exact List.all_eq_true.mp hok
  | _ => cases hnew

theorem Current.finish {cfg : WriterConfig} (h : Current months timeMs s)
    (hok : s.keepsMonth months timeMs .finish = true)
    (hs : step months timeMs cfg s .finish = some t) : Current months timeMs t := by
  simp only [ActiveMonth.step] at hs
  split at hs
  · obtain rfl := Option.some.inj hs
    exact h.of_keeps (keeps_release s)
  · rename_i rotated ok hstage
    obtain rfl := Option.some.inj hs
    split
    · rename_i hboth
      obtain ⟨rfl, rfl⟩ := Bool.and_eq_true_iff.mp hboth
      have hnew : s.newMonth months timeMs .finish = some (months.yyyymm s.clock) := by
        simp only [newMonth, hstage]
      exact (h.setMonth (notBefore_of_newMonth hok hnew)).of_keeps (keeps_release _)
    · exact h.of_keeps (keeps_release s)
  · cases hs

theorem Current.step {cfg : WriterConfig} {e : Event α} (h : Current months timeMs s)
    (hok : s.keepsMonth months timeMs e = true) (hs : step months timeMs cfg s e = some t) :
    Current months timeMs t := by
  cases e with
  | tick now =>
    obtain rfl := Option.some.inj hs
    have hle : s.clock ≤ now := of_decide_eq_true hok
    exact ⟨h.month, fun item hitem t ht ↦ Int.le_trans (h.held item hitem t ht) hle,
      fun item hitem t ht ↦ Int.le_trans (h.records item hitem t ht) hle⟩
  | arrive item =>
    simp only [ActiveMonth.step, Option.ite_none_right_eq_some, Option.some.injEq] at hs
    obtain ⟨htime, rfl⟩ := hs
    exact h.arrive htime
  | pass i =>
    obtain ⟨item, hitem, rfl⟩ := Option.map_eq_some_iff.mp hs
    exact h.of_keeps (keeps_erase (Option.filter_eq_some_iff.mp hitem).1)
  | lock i =>
    simp only [ActiveMonth.step, Option.ite_none_left_eq_some] at hs
    obtain ⟨item, hitem, rfl⟩ := Option.map_eq_some_iff.mp hs.2
    exact h.of_keeps ((keeps_lock (Option.filter_eq_some_iff.mp hitem).1).trans
      (keeps_rotateLocked _))
  | enqueue i =>
    obtain ⟨item, hitem, rfl⟩ := Option.map_eq_some_iff.mp hs
    rw [keepsMonth, hitem, Option.all_some] at hok
    exact h.enqueue hitem hok
  | check =>
    simp only [ActiveMonth.step, Option.ite_none_left_eq_some, Option.some.injEq] at hs
    obtain ⟨hfree, rfl⟩ := hs
    rw [Bool.not_eq_true, Option.isSome_eq_false_iff, Option.isNone_iff_eq_none] at hfree
    refine h.of_keeps ⟨rfl, rfl, rfl, rfl, ?_⟩
    rw [AppState.records, AppState.records, hfree]
    exact List.Subset.refl _
  | data ok =>
    simp only [ActiveMonth.step] at hs
    split at hs
    · rename_i nowMonth hstage
      obtain rfl := Option.some.inj hs
      refine h.checkData fun month hmonth hle ↦ ?_
      cases ok with
      | false => cases hmonth
      | true =>
        rw [if_pos rfl] at hmonth
        have hnew : s.newMonth months timeMs (.data true) = some month := by
          simp only [newMonth, hstage, hmonth]
          exact Option.filter_eq_some_iff.mpr ⟨rfl, decide_eq_true hle⟩
        exact notBefore_of_newMonth hok hnew
    · cases hs
  | command =>
    obtain ⟨⟨cmd, stage⟩, -, hs⟩ := Option.bind_eq_some_iff.mp hs
    obtain ⟨w, hw, rfl⟩ := Option.map_eq_some_iff.mp hs
    exact (h.of_ownStep hw fun item heq ↦ by cases heq).of_keeps
      ((keeps_moveTo _ _).trans (keeps_hear _))
  | closed =>
    simp only [ActiveMonth.step, Option.ite_none_right_eq_some] at hs
    obtain ⟨stage, -, rfl⟩ := Option.map_eq_some_iff.mp hs.2
    exact h.of_keeps (keeps_moveTo s stage)
  | rename ok =>
    simp only [ActiveMonth.step] at hs
    split at hs
    · obtain rfl := Option.some.inj hs
      exact h.rename ok
    · cases hs
  | initDb outcome =>
    simp only [ActiveMonth.step] at hs
    split at hs
    · obtain rfl := Option.some.inj hs
      exact h.initDb outcome
    · cases hs
  | finish => exact h.finish hok hs
  | writer e =>
    simp only [ActiveMonth.step, Option.ite_none_right_eq_some] at hs
    obtain ⟨w, hw, rfl⟩ := Option.map_eq_some_iff.mp hs.2
    refine (h.of_ownStep hw fun item heq ↦ ?_).of_keeps (keeps_hear _)
    rw [heq] at hs
    cases hs.1

variable (months timeMs) in
/-- The database that is opened at the start has no row from before its month or after the clock. -/
def startsCurrent (clock : ℤ) (table : Table α) (ok : Bool) : Bool :=
  table.items.all fun item ↦
    notBefore months timeMs (start months timeMs clock table ok).activeYyyymm item &&
      (timeMs item).all (· ≤ clock)

theorem current_start {clock : ℤ} {table : Table α} {ok : Bool}
    (h : startsCurrent months timeMs clock table ok = true) :
    Current months timeMs (start months timeMs clock table ok) := by
  have hheld : ∀ item ∈ (start months timeMs clock table ok).held, item ∈ table.items := by
    intro item hitem
    simpa only [AppState.held, inWriter, start, Audit.start, rows, List.append_nil] using hitem
  rw [startsCurrent, List.all_eq_true] at h
  refine ⟨fun item hitem ↦ ?_, fun item hitem t ht ↦ ?_, fun item hitem ↦ absurd hitem ?_⟩
  · exact (Bool.and_eq_true_iff.mp (h item (hheld item hitem))).1
  · have hle := (Bool.and_eq_true_iff.mp (h item (hheld item hitem))).2
    rw [ht, Option.all_some] at hle
    exact of_decide_eq_true hle
  · exact List.not_mem_nil

theorem current_run {cfg : WriterConfig} {tr : List (AppState α × Event α)}
    (h : Path (step months timeMs cfg) s tr t) (hs : Current months timeMs s)
    (hok : ∀ p ∈ tr, p.1.keepsMonth months timeMs p.2 = true) : Current months timeMs t :=
  h.invariant (fun s e ↦ s.keepsMonth months timeMs e = true) hok hs
    fun _ _ _ hs hok hst ↦ hs.step hok hst

end Month

end QueQiao.ActiveMonth
