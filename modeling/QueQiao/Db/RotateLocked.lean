import QueQiao.Db.WriterAnswers

namespace QueQiao.Rotation

open Lib.Transition Audit

/-- The directory of the audit database, by file name; what stands under a name is a database
file, known by a number. -/
abbrev Directory := String → Option ℕ

structure Settings where
  dbPath : String
  nextMonthBoundaryMs : ℤ → ℤ

/-- The part of the application that a rotation touches: the store that requests use, the one
that the writer task is attached to, if it is not sealed, and the clock fields. -/
structure AppState where
  files : Directory
  created : ℕ
  db : ℕ
  writer : Option ℕ
  activeYyyymm : ℤ
  nextMonthBoundaryMs : ℤ

/-- `init_db` fails before or after the file at the path has been created. -/
inductive InitDb
  | ok
  | failed (fileCreated : Bool)
  deriving DecidableEq, Repr

/-- How the steps of a rotation end, and what its clocks say. -/
structure Outcomes where
  timestamp : ℕ
  sealOk : Bool
  renameOk : Bool
  initDb : InitDb
  resumeOk : Bool
  nowMonth : ℤ
  deriving DecidableEq, Repr

def sixDigits (n : ℤ) : String :=
  let digits := toString n.natAbs
  let sign := if n < 0 then "-" else ""
  sign ++ String.ofList (List.replicate (6 - sign.length - digits.length) '0') ++ digits

def archivePath (files : Directory) (sealYyyymm : ℤ) (timestamp : ℕ) : String :=
  let path := "record_" ++ sixDigits sealYyyymm ++ ".db"
  if (files path).isNone then path
  else "record_" ++ sixDigits sealYyyymm ++ "_" ++ toString timestamp ++ ".db"

def rename (files : Directory) (source target : String) : Directory :=
  fun name ↦ if name = source then none else if name = target then files source else files name

/-- The store of the writer after a seal and after a resumption, by their answers. -/
def sealed (store : Option ℕ) (ok : Bool) : Option ℕ := if ok then none else store

def resumed (store : Option ℕ) (file : ℕ) (ok : Bool) : Option ℕ := if ok then some file else store

theorem sealed_of_answered {α : Type*} {cfg : WriterConfig} {w w' : AuditWriter α} {ok : Bool}
    (h : Answered cfg w .seal ok w') : w'.store = sealed w.store ok :=
  h.seal_store

theorem resumed_of_answered {α : Type*} {cfg : WriterConfig} {w w' : AuditWriter α} {ok : Bool}
    {file : ℕ} (h : Answered cfg w (.resume file) ok w') : w'.store = resumed w.store file ok :=
  h.resume_store

def rotateLocked (settings : Settings) (sealYyyymm : ℤ) (outcomes : Outcomes) (s : AppState) :
    AppState :=
  if (s.files settings.dbPath).isNone then s
  else
    let archive := archivePath s.files sealYyyymm outcomes.timestamp
    let oldStore := s.db
    let s := { s with writer := sealed s.writer outcomes.sealOk }
    if outcomes.sealOk = false then s
    else if outcomes.renameOk = false then
      { s with writer := resumed s.writer oldStore outcomes.resumeOk }
    else
      let s := { s with files := rename s.files settings.dbPath archive }
      match outcomes.initDb with
      | .ok =>
        let newDb := s.created
        let s := { s with
          files := fun name ↦ if name = settings.dbPath then some newDb else s.files name
          created := s.created + 1
          db := newDb
          writer := resumed s.writer newDb outcomes.resumeOk }
        if outcomes.resumeOk then
          { s with
            activeYyyymm := outcomes.nowMonth
            nextMonthBoundaryMs := settings.nextMonthBoundaryMs outcomes.nowMonth }
        else s
      | .failed fileCreated =>
        if fileCreated then
          { s with
            files := fun name ↦ if name = settings.dbPath then some s.created else s.files name
            created := s.created + 1 }
        else s

def checkAndRotate (settings : Settings) (nowMonth : ℤ) (dataMonth : Option ℤ)
    (outcomes : Outcomes) (s : AppState) : AppState :=
  match dataMonth with
  | none => s
  | some dataMonth =>
    if dataMonth < nowMonth then rotateLocked settings dataMonth outcomes s
    else if dataMonth ≠ s.activeYyyymm then
      { s with
        activeYyyymm := dataMonth
        nextMonthBoundaryMs := settings.nextMonthBoundaryMs dataMonth }
    else s

/-- The check before the lock is taken and the one after it read the same field. -/
def rotateIfNeeded (settings : Settings) (timeMs nowMonth : ℤ) (dataMonth : Option ℤ)
    (outcomes : Outcomes) (s : AppState) : AppState :=
  if timeMs < s.nextMonthBoundaryMs then s
  else
    let sealMonth := match dataMonth with
      | some month => if month < nowMonth then month else s.activeYyyymm
      | none => s.activeYyyymm
    rotateLocked settings sealMonth outcomes s

inductive Event
  | check (nowMonth : ℤ) (dataMonth : Option ℤ) (outcomes : Outcomes)
  | write (timeMs nowMonth : ℤ) (dataMonth : Option ℤ) (outcomes : Outcomes)
  deriving DecidableEq, Repr

def step (settings : Settings) (s : AppState) : Event → Option AppState
  | .check nowMonth dataMonth outcomes => some (checkAndRotate settings nowMonth dataMonth outcomes s)
  | .write timeMs nowMonth dataMonth outcomes =>
    some (rotateIfNeeded settings timeMs nowMonth dataMonth outcomes s)

def Event.rotates (s : AppState) : Event → Bool
  | .check nowMonth dataMonth _ => dataMonth.any (· < nowMonth)
  | .write timeMs _ _ _ => decide (s.nextMonthBoundaryMs ≤ timeMs)

def Event.outcomes : Event → Outcomes
  | .check _ _ outcomes | .write _ _ _ outcomes => outcomes

/-- The writer is attached to the store of the requests, whose file stands at the path. -/
structure Healthy (settings : Settings) (s : AppState) : Prop where
  attached : s.writer = some s.db
  atPath : s.files settings.dbPath = some s.db

/-- What a rotation needs once it has sealed the writer. -/
def Outcomes.Completes (outcomes : Outcomes) : Prop :=
  outcomes.sealOk = true →
    (outcomes.renameOk = true → outcomes.initDb = .ok) ∧ outcomes.resumeOk = true

variable {settings : Settings} {s t : AppState}

theorem rotateLocked_of_isSome (h : (s.files settings.dbPath).isNone = false) (sealYyyymm : ℤ)
    (outcomes : Outcomes) :
    let t := rotateLocked settings sealYyyymm outcomes s
    t.writer =
        (if outcomes.sealOk = false then s.writer
        else if outcomes.renameOk = false then if outcomes.resumeOk then some s.db else none
        else if outcomes.initDb = .ok ∧ outcomes.resumeOk = true then some s.created else none) ∧
      t.db =
        (if outcomes.sealOk = true ∧ outcomes.renameOk = true ∧ outcomes.initDb = .ok then s.created
        else s.db) ∧
      t.files settings.dbPath =
        (if outcomes.sealOk = true ∧ outcomes.renameOk = true then
          if outcomes.initDb = .failed false then none else some s.created
        else s.files settings.dbPath) := by
  obtain ⟨timestamp, sealOk, renameOk, initDb, resumeOk, nowMonth⟩ := outcomes
  cases sealOk with
  | false => simp [rotateLocked, h, sealed]
  | true =>
    cases renameOk with
    | false => cases resumeOk <;> simp [rotateLocked, h, sealed, resumed]
    | true =>
      cases initDb with
      | ok => cases resumeOk <;> simp [rotateLocked, h, sealed, resumed]
      | failed fileCreated =>
        cases fileCreated <;> simp [rotateLocked, h, sealed, rename]

theorem healthy_rotateLocked_iff (h : Healthy settings s) (sealYyyymm : ℤ) (outcomes : Outcomes) :
    Healthy settings (rotateLocked settings sealYyyymm outcomes s) ↔ outcomes.Completes := by
  have hthere : (s.files settings.dbPath).isNone = false := by
    rw [h.atPath]
    rfl
  obtain ⟨hwriter, hdb, hfile⟩ := rotateLocked_of_isSome hthere sealYyyymm outcomes
  have hiff : ∀ t : AppState, Healthy settings t ↔
      t.writer = some t.db ∧ t.files settings.dbPath = some t.db :=
    fun t ↦ ⟨fun ht ↦ ⟨ht.attached, ht.atPath⟩, fun ht ↦ ⟨ht.1, ht.2⟩⟩
  rw [hiff, hwriter, hdb, hfile, h.attached, h.atPath, Outcomes.Completes]
  cases outcomes.sealOk with
  | false => simp
  | true =>
    cases outcomes.renameOk with
    | false => cases outcomes.resumeOk <;> simp
    | true => cases outcomes.initDb <;> cases outcomes.resumeOk <;> simp

theorem healthy_step_iff (h : Healthy settings s) {e : Event} (hs : step settings s e = some t) :
    Healthy settings t ↔ (e.rotates s = true → e.outcomes.Completes) := by
  cases e with
  | check nowMonth dataMonth outcomes =>
    obtain rfl := Option.some.inj hs
    cases dataMonth with
    | none => exact ⟨fun _ hr ↦ absurd hr Bool.false_ne_true, fun _ ↦ h⟩
    | some dataMonth =>
      simp only [checkAndRotate, Event.rotates, Event.outcomes, Option.any_some, decide_eq_true_eq]
      split_ifs with hlt
      · rw [healthy_rotateLocked_iff h]
        exact ⟨fun hc _ ↦ hc, fun hc ↦ hc hlt⟩
      · exact ⟨fun _ hr ↦ absurd hr hlt, fun _ ↦ ⟨h.attached, h.atPath⟩⟩
      · exact ⟨fun _ hr ↦ absurd hr hlt, fun _ ↦ h⟩
  | write timeMs nowMonth dataMonth outcomes =>
    obtain rfl := Option.some.inj hs
    simp only [rotateIfNeeded, Event.rotates, Event.outcomes, decide_eq_true_eq]
    split_ifs with hlt
    · exact ⟨fun _ hr ↦ absurd hlt (Int.not_lt.mpr hr), fun _ ↦ h⟩
    · rw [healthy_rotateLocked_iff h]
      exact ⟨fun hc _ ↦ hc, fun hc ↦ hc (Int.not_lt.mp hlt)⟩

def AppState.start (files : Directory) (created db : ℕ) (activeYyyymm boundary : ℤ) : AppState where
  files := files
  created := created
  db := db
  writer := some db
  activeYyyymm := activeYyyymm
  nextMonthBoundaryMs := boundary

/-- The application is healthy after every rotation exactly if every rotation that seals the
writer completes. The writer's task leaves its store as the rotation takes it from the answers. -/
theorem healthy_iff_completes {α : Type} {files : Directory} {created db : ℕ} {activeYyyymm boundary : ℤ}
    (hdb : files settings.dbPath = some db) {tr : List (AppState × Event)}
    (h : Path (step settings) (.start files created db activeYyyymm boundary) tr t) :
    (Always (Healthy settings) tr t ↔
      ∀ p ∈ tr, p.2.rotates p.1 = true → p.2.outcomes.Completes) ∧
      ∀ (cfg : WriterConfig) (w w' : AuditWriter α) (ok : Bool),
        (Answered cfg w .seal ok w' → w'.store = sealed w.store ok) ∧
          ∀ file, Answered cfg w (.resume file) ok w' → w'.store = resumed w.store file ok :=
  ⟨h.always_iff ⟨rfl, hdb⟩ fun _ _ _ hs hst ↦ healthy_step_iff hs hst,
    fun _ _ _ _ ↦ ⟨sealed_of_answered, fun _ ↦ resumed_of_answered⟩⟩

theorem sealed_forever (hgone : s.files settings.dbPath = none) (hsealed : s.writer = none)
    {tr : List (AppState × Event)} (h : Path (step settings) s tr t) :
    t.writer = none ∧ t.files settings.dbPath = none := by
  refine h.invariant_all (P := fun t ↦ t.writer = none ∧ t.files settings.dbPath = none)
    ⟨hsealed, hgone⟩ ?_
  rintro s e t ⟨hwriter, hfile⟩ hst
  have hrotate : ∀ sealYyyymm outcomes, rotateLocked settings sealYyyymm outcomes s = s := by
    intro sealYyyymm outcomes
    simp [rotateLocked, hfile]
  cases e with
  | check nowMonth dataMonth outcomes =>
    obtain rfl := Option.some.inj hst
    cases dataMonth with
    | none => exact ⟨hwriter, hfile⟩
    | some dataMonth =>
      simp only [checkAndRotate, hrotate]
      split_ifs <;> exact ⟨hwriter, hfile⟩
  | write timeMs nowMonth dataMonth outcomes =>
    obtain rfl := Option.some.inj hst
    simp only [rotateIfNeeded, hrotate, ite_self]
    exact ⟨hwriter, hfile⟩

def recordDb : Settings := ⟨"record.db", fun month ↦ month * 100⟩

def diskFull : Event :=
  .write 20260900 202610 (some 202609) ⟨0, true, true, .failed false, true, 202610⟩

theorem healthy_iff_completes_resumed :
    ∃ tr t, Path (step recordDb)
        (.start (fun name ↦ if name = "record.db" then some 0 else none) 1 0 202609 20260900) tr t ∧
      t.db = 1 ∧ Always (Healthy recordDb) tr t := by
  have hrun : (trace (step recordDb)
      (.start (fun name ↦ if name = "record.db" then some 0 else none) 1 0 202609 20260900)
      [.check 202610 (some 202609) ⟨0, true, false, .ok, true, 202610⟩,
        .write 20260900 202610 (some 202609) ⟨0, true, true, .ok, true, 202610⟩]).map
      (fun r ↦ (r.2.db, r.1.all fun p ↦ p.2.outcomes.renameOk == false || p.2.outcomes.initDb == .ok,
        r.1.all fun p ↦ p.2.outcomes.resumeOk)) = some (1, true, true) := by
    decide +kernel
  obtain ⟨⟨tr, t⟩, hr, hs⟩ := Option.map_eq_some_iff.mp hrun
  simp only [Prod.mk.injEq] at hs
  obtain ⟨hdb, hinit, hresume⟩ := hs
  refine ⟨tr, t, Path.of_trace hr, hdb,
    (healthy_iff_completes (α := Unit) rfl (Path.of_trace hr)).1.mpr
      fun p hp _ _ ↦ ⟨fun hrename ↦ ?_, ?_⟩⟩
  · simpa [hrename] using List.all_eq_true.mp hinit p hp
  · exact List.all_eq_true.mp hresume p hp

theorem writer_left_sealed :
    ∃ tr t, Path (step recordDb)
        (.start (fun name ↦ if name = "record.db" then some 0 else none) 1 0 202609 20260900) tr t ∧
      t.writer = none ∧ t.files "record.db" = none ∧ ¬Healthy recordDb t := by
  have hrun : (trace (step recordDb)
      (.start (fun name ↦ if name = "record.db" then some 0 else none) 1 0 202609 20260900)
      [diskFull]).map (fun r ↦ (r.2.writer, r.2.files "record.db")) = some (none, none) := by
    decide +kernel
  obtain ⟨⟨tr, t⟩, hr, hs⟩ := Option.map_eq_some_iff.mp hrun
  obtain ⟨hwriter, hfile⟩ := Prod.mk.inj hs
  refine ⟨tr, t, Path.of_trace hr, hwriter, hfile, fun h ↦ ?_⟩
  cases hwriter.symm.trans h.attached

end QueQiao.Rotation
