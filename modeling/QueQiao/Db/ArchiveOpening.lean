import QueQiao.Db.ArchiveScan

namespace QueQiao.ArchiveScan

open Lib.CrashLogic Lib.Directory Migrate Cutover

variable {L : Type} {format : Format L} {path : String} {original db : Database L}
  {disk : Disk L} {P : Disk L → Prop} {opening : Opening}

def NoJournal (path : String) (disk : Disk L) : Prop :=
  ∀ db pending, disk.get path = some (.database db pending) → "-journal" ∉ pending

/-- What does not depend on the sidecars of an archive, so far as they hold no part of it. -/
structure Steady (path : String) (P : Disk L → Prop) : Prop where
  replay : ∀ keepsJournal disk, P disk → P (replay path keepsJournal disk).2
  remove : ∀ disk, P disk → NoJournal path disk → P (disk.remove (journalPath path))
  leave : ∀ disk, ∀ suffix ∈ sidecars, P disk → disk.get (artifactPath path suffix) = none →
    P (disk.put (artifactPath path suffix) (.plain 0))

def OfSidecar (path name : String) : Prop := ∃ suffix ∈ sidecars, name = artifactPath path suffix

theorem not_ofSidecar : ¬OfSidecar path path := fun ⟨_, hsuffix, h⟩ ↦
  append_self_ne (sidecar_ne_empty hsuffix) h.symm

theorem ofSidecar_journal : OfSidecar path (journalPath path) := ⟨"-journal", by decide, rfl⟩

theorem journal_ne {suffix : String} (h : suffix ≠ "-journal") :
    artifactPath path suffix ≠ journalPath path := append_ne h

theorem path_ne_sidecar {suffix : String} (h : suffix ∈ sidecars) : artifactPath path suffix ≠ path :=
  append_self_ne (sidecar_ne_empty h)

theorem path_ne_journal : path ≠ journalPath path := (path_ne_sidecar (by decide)).symm

theorem holds_of_subset {disk' : Disk L} {pending pending' : List String}
    (hpending : ∀ suffix ∈ pending, suffix ∈ dataSidecars ∧
      ∃ len, 0 < len ∧ disk.get (artifactPath path suffix) = some (.plain len))
    (hget : disk'.get path = some (.database db pending'))
    (hsub : ∀ suffix ∈ pending', suffix ∈ pending ∧
      disk'.get (artifactPath path suffix) = disk.get (artifactPath path suffix)) :
    Holds path db disk' := by
  refine ⟨pending', hget, fun suffix hsuffix ↦ ?_⟩
  obtain ⟨hmem, hsame⟩ := hsub suffix hsuffix
  obtain ⟨hdata, len, hlen, hfile⟩ := hpending suffix hmem
  exact ⟨hdata, len, hlen, hsame.trans hfile⟩

theorem get_replay {pending : List String} (hget : disk.get path = some (.database db pending))
    (keepsJournal : Bool) {name : String} (hpath : name ≠ path) (hjournal : name ≠ journalPath path) :
    (replay path keepsJournal disk).2.get name = disk.get name := by
  rw [replay, hget]
  cases keepsJournal with
  | true => exact (Disk.get_put name).trans (if_neg hpath)
  | false =>
    dsimp only
    rw [if_neg Bool.false_ne_true, Disk.get_remove, if_neg hjournal, Disk.get_put, if_neg hpath]

theorem get_replay_path {pending : List String} (hget : disk.get path = some (.database db pending))
    (keepsJournal : Bool) : (replay path keepsJournal disk).2.get path =
      some (.database db (pending.filter (· ≠ "-journal"))) := by
  rw [replay, hget]
  cases keepsJournal with
  | true => exact (Disk.get_put path).trans (if_pos rfl)
  | false =>
    dsimp only
    rw [if_neg Bool.false_ne_true, Disk.get_remove, if_neg path_ne_journal, Disk.get_put, if_pos rfl]

theorem steady_holds : Steady path (Holds path db) where
  replay keepsJournal disk h := by
    obtain ⟨pending, hget, hpending⟩ := h
    refine holds_of_subset hpending (get_replay_path hget keepsJournal) fun suffix hsuffix ↦ ?_
    obtain ⟨hmem, hjournal⟩ := List.mem_filter.mp hsuffix
    refine ⟨hmem, get_replay hget keepsJournal ?_ (journal_ne (of_decide_eq_true hjournal))⟩
    exact path_ne_sidecar (mem_sidecars_of_data (hpending suffix hmem).1)
  remove disk h hjournal := by
    obtain ⟨pending, hget, hpending⟩ := h
    refine holds_of_subset hpending ?_ fun suffix hsuffix ↦ ⟨hsuffix, ?_⟩
    · rw [Disk.get_remove, if_neg path_ne_journal, hget]
    · have hne : suffix ≠ "-journal" := fun heq ↦ hjournal db pending hget (heq ▸ hsuffix)
      rw [Disk.get_remove, if_neg (journal_ne hne)]
  leave disk suffix hsuffix h hnone := by
    obtain ⟨pending, hget, hpending⟩ := h
    refine holds_of_subset hpending ?_ fun other hother ↦ ⟨hother, ?_⟩
    · rw [Disk.get_put, if_neg (path_ne_sidecar hsuffix).symm, hget]
    · obtain ⟨-, len, -, hfile⟩ := hpending other hother
      refine (Disk.get_put _).trans (if_neg fun heq ↦ ?_)
      rw [heq, hnone] at hfile
      cases hfile

theorem steady_replaced : Steady path (Replaced format path original) := by
  have hstable : Stable (OfSidecar path) (Replaced format path original) :=
    stable_replaced not_ofSidecar fun n ⟨_, hsuffix, h⟩ ↦ backupName_ne_sidecar hsuffix h
  refine ⟨fun keepsJournal disk h ↦ ?_, fun disk h _ ↦ hstable disk _ (agreeOff_remove ofSidecar_journal) h,
    fun disk suffix hsuffix h _ ↦ hstable disk _ (agreeOff_put ⟨suffix, hsuffix, rfl⟩) h⟩
  obtain ⟨copy, -, hwhole, -⟩ := id h
  refine hstable disk _ ⟨?_, fun name hname ↦ ?_⟩ h
  · rw [replay, hwhole]
    cases keepsJournal <;> rfl
  · by_cases hpath : name = path
    · rw [hpath, get_replay_path hwhole, hwhole]
      rfl
    · exact get_replay hwhole keepsJournal hpath fun heq ↦ hname (heq ▸ ofSidecar_journal)

theorem steady_file {file : File L} (hfile : ∀ db pending, file ≠ .database db pending) :
    Steady path fun disk ↦ disk.get path = some file := by
  have hstable : Stable (OfSidecar path) fun disk : Disk L ↦ disk.get path = some file :=
    stable_get not_ofSidecar _
  refine ⟨fun keepsJournal disk h ↦ ?_, fun disk h _ ↦ hstable disk _ (agreeOff_remove ofSidecar_journal) h,
    fun disk suffix hsuffix h _ ↦ hstable disk _ (agreeOff_put ⟨suffix, hsuffix, rfl⟩) h⟩
  rw [replay, h]
  cases file with
  | database db pending => exact absurd rfl (hfile db pending)
  | unfinished => exact h
  | plain len => exact h

/-- The steps of opening an archive that fail do so because it is busy. -/
structure Opening.Mild (opening : Opening) : Prop where
  errors : ∀ step error, opening.errors step = some error → error.isBusy = true
  cleanup : opening.cleanup = none

/-- A database of a schema that is known to this binary. -/
def Known (path : String) (disk : Disk L) : Prop :=
  ∃ kind, probeSchema (disk.get path) = .ok kind ∧ kind ≠ .unknown ∧ ∀ version, kind ≠ .newer version

def IsDatabase (path : String) (disk : Disk L) : Prop :=
  ∃ db pending, disk.get path = some (.database db pending)

structure Benign (path : String) (P : Disk L → Prop) (opening : Opening) : Prop where
  mild : opening.Mild
  known : ∀ disk, P disk → Known path disk ∧ IsDatabase path disk

def Failed (path : String) (P : Disk L → Prop) (opening : Opening) (error : DbError) (disk : Disk L) :
    Prop := P disk ∧ (Benign path P opening → error.isBusy = true)

/-- A v8 database with the column `TimeMs`. -/
def Timed (path : String) (disk : Disk L) : Prop :=
  ∃ target pending, disk.get path = some (.database (.v8 target) pending)

abbrev Anywhere (_ : Disk L) : Prop := True

theorem triple_known {α : Type} {error : Option DbError} {f : Disk L → Except DbError α × Disk L}
    {Q : Disk L → Prop} {post : α → Disk L → Prop} (hQ : ∀ disk, Q disk → P disk)
    (herror : ∀ e, error = some e → Benign path P opening → e.isBusy = true)
    (h : ∀ disk, Q disk → Ends post (Failed path P opening) (f disk).2 (f disk).1) :
    Triple Anywhere Q (known error f) post (Failed path P opening) := by
  refine .change fun disk hdisk ↦ ⟨trivial, ?_⟩
  cases error with
  | some error => exact ⟨hQ disk hdisk, herror error rfl⟩
  | none => exact h disk hdisk

theorem step_busy {openStep : OpenStep} {error : DbError} (h : opening.errors openStep = some error)
    (hbenign : Benign path P opening) : error.isBusy = true := hbenign.mild.errors openStep error h

theorem triple_idle {Q : Disk L → Prop} (hQ : ∀ disk, Q disk → P disk) (openStep : OpenStep) :
    Triple Anywhere Q (known (opening.errors openStep) idle) (fun _ ↦ Q) (Failed path P opening) :=
  triple_known hQ (fun _ ↦ step_busy) fun _ ↦ id

theorem replay_ends (hP : Steady path P) {keepsJournal : Bool} (h : P disk) :
    Ends (fun _ disk ↦ P disk ∧ NoJournal path disk) (Failed path P opening)
      (replay path keepsJournal disk).2 (replay path keepsJournal disk).1 := by
  by_cases hdatabase : IsDatabase path disk
  · obtain ⟨db, pending, hfile⟩ := hdatabase
    have hok : (replay path keepsJournal disk).1 = .ok () := by rw [replay, hfile]
    rw [hok]
    refine ⟨hP.replay keepsJournal disk h, fun db' pending' hget hmem ↦ ?_⟩
    obtain ⟨-, rfl⟩ := File.database.inj
      (Option.some.inj ((get_replay_path hfile keepsJournal).symm.trans hget))
    exact absurd rfl (of_decide_eq_true (List.mem_filter.mp hmem).2)
  · have herror : replay path keepsJournal disk =
        (.error (.shape "file is not a database"), disk) := by
      rw [replay]
      split
      · rename_i db pending hfile
        exact absurd ⟨db, pending, hfile⟩ hdatabase
      · rfl
    rw [herror]
    exact ⟨h, fun hbenign ↦ absurd (hbenign.known disk h).2 hdatabase⟩

theorem triple_recoverJournal (hP : Steady path P) :
    Triple Anywhere P (recoverJournal path opening) (fun _ ↦ P) (Failed path P opening) := by
  have hreplay : Triple Anywhere P
      (known (opening.errors .beginImmediate) (replay path opening.keepsJournal))
      (fun _ disk ↦ P disk ∧ NoJournal path disk) (Failed path P opening) := by
    exact triple_known (fun _ ↦ id) (fun _ ↦ step_busy) fun disk h ↦ replay_ends hP h
  have hQ : ∀ disk, P disk ∧ NoJournal path disk → P disk := fun _ ↦ And.left
  refine .bind (triple_idle (fun _ ↦ id) _) fun _ ↦ .bind (triple_idle (fun _ ↦ id) _) fun _ ↦
    .bind hreplay fun _ ↦ .bind (triple_idle hQ _) fun _ ↦ .look_bind fun d hd ↦ ?_
  have hrollback : Triple Anywhere P (known (opening.errors .rollback) idle) (fun _ ↦ P)
      (Failed path P opening) := triple_idle (fun _ ↦ id) _
  have hcleanup (text : String) : Triple Anywhere (· = d)
      (known (opening.cleanup.map (io text)) fun disk : Disk L ↦
        (.ok (), disk.remove (journalPath path))) (fun _ ↦ P) (Failed path P opening) := by
    refine triple_known (fun _ h ↦ h ▸ hd.1) (fun e he hbenign ↦ ?_) fun disk h ↦ ?_
    · rw [hbenign.mild.cleanup] at he
      cases he
    · exact h ▸ hP.remove d hd.1 hd.2
  split
  · exact .bind (hcleanup _) fun _ ↦ hrollback
  · exact hrollback.pre_mono fun _ h ↦ h ▸ hd.1

theorem openStore_kept (hP : Steady path P) (emptied : List String) (h : P disk) :
    P (openStore path emptied disk) := by
  rw [openStore]
  have hsidecars : ∀ suffix ∈ emptied.filter (· ∈ sidecars), suffix ∈ sidecars :=
    fun suffix hsuffix ↦ of_decide_eq_true (List.mem_filter.mp hsuffix).2
  generalize emptied.filter (· ∈ sidecars) = suffixes at hsidecars
  induction suffixes generalizing disk with
  | nil => exact h
  | cons suffix suffixes ih =>
    refine ih ?_ fun s hs ↦ hsidecars s (List.mem_cons_of_mem _ hs)
    dsimp only
    split
    · exact h
    · rename_i hnone
      exact hP.leave disk suffix (hsidecars suffix List.mem_cons_self) h
        (Option.not_isSome_iff_eq_none.mp hnone)

theorem timed_kind (h : Timed path disk) : probeSchema (disk.get path) = .ok .v8 := by
  obtain ⟨target, pending, hget⟩ := h
  rw [hget]
  rfl

theorem triple_openShard (hP : Steady path P) (id : String) :
    Triple Anywhere P (openShard path id opening)
      (fun shard disk ↦ P disk ∧ (Timed path disk ↔ shard.isSome)) (Failed path P opening) := by
  have hstore : Triple Anywhere P
      (known (opening.errors .openStore) fun disk : Disk L ↦
        (.ok (), openStore path opening.emptied disk)) (fun _ ↦ P) (Failed path P opening) :=
    triple_known (fun _ h ↦ h) (fun _ ↦ step_busy) fun _ h ↦ openStore_kept hP _ h
  refine .bind hstore fun _ ↦ .bind (triple_idle (fun _ h ↦ h) _) fun _ ↦ .look_bind fun d hd ↦ ?_
  split
  · rename_i target pending hget
    have hbounds : Triple Anywhere (· = d) (known (opening.errors .bounds) idle) (fun _ ↦ (· = d))
        (Failed path P opening) := triple_idle (fun _ (h : _ = d) ↦ h ▸ hd) _
    refine .bind hbounds fun _ ↦ .ret fun disk h ↦ ?_
    subst h
    exact ⟨hd, iff_of_true ⟨target, pending, hget⟩ rfl⟩
  · rename_i hnot
    refine .ret fun disk h ↦ ?_
    subst h
    exact ⟨hd, iff_of_false (fun ⟨target, pending, hget⟩ ↦ hnot target pending hget) Bool.false_ne_true⟩

theorem triple_probeAndOpen (hP : Steady path P) (id : String) :
    Triple Anywhere P (probeAndOpen path id opening)
      (fun shard disk ↦ P disk ∧ (Timed path disk ↔ shard.isSome)) (Failed path P opening) := by
  have hprobe : Triple Anywhere P
      (known (opening.errors .probe) fun disk : Disk L ↦ (probeSchema (disk.get path), disk))
      (fun kind disk ↦ probeSchema (disk.get path) = .ok kind ∧ P disk) (Failed path P opening) := by
    refine triple_known (fun _ h ↦ h) (fun _ ↦ step_busy) fun disk h ↦ ?_
    dsimp only
    cases hkind : probeSchema (disk.get path) with
    | ok kind => exact ⟨hkind, h⟩
    | error error =>
      refine ⟨h, fun hbenign ↦ ?_⟩
      obtain ⟨kind, hok, -⟩ := (hbenign.known disk h).1
      rw [hkind] at hok
      cases hok
  have hnone (kind : SchemaKind) (hkind : kind ≠ .v8) : Triple Anywhere
      (fun disk : Disk L ↦ probeSchema (disk.get path) = .ok kind ∧ P disk) (pure none : Cut L _)
      (fun (shard : Option ArchiveShard) disk ↦ P disk ∧ (Timed path disk ↔ shard.isSome))
      (Failed path P opening) := by
    refine .ret fun disk h ↦ ⟨h.2, iff_of_false (fun htimed ↦ hkind ?_) Bool.false_ne_true⟩
    exact Except.ok.inj (h.1.symm.trans (timed_kind htimed))
  have hfail (kind : SchemaKind) (text : String)
      (hkind : kind = .unknown ∨ ∃ version, kind = .newer version) : Triple Anywhere
      (fun disk : Disk L ↦ probeSchema (disk.get path) = .ok kind ∧ P disk)
      (.fail (.shape text) : Cut L _)
      (fun (shard : Option ArchiveShard) disk ↦ P disk ∧ (Timed path disk ↔ shard.isSome))
      (Failed path P opening) := by
    refine .fail fun disk h ↦ ⟨h.2, fun hbenign ↦ ?_⟩
    obtain ⟨kind', hprobe, hunknown, hnewer⟩ := (hbenign.known disk h.2).1
    obtain rfl : kind' = kind := Except.ok.inj (hprobe.symm.trans h.1)
    obtain hkind | ⟨version, hkind⟩ := hkind
    · exact absurd hkind hunknown
    · exact absurd hkind (hnewer version)
  refine .bind hprobe fun kind ↦ ?_
  cases kind with
  | v8 => exact (triple_openShard hP id).pre_mono fun _ h ↦ h.2
  | newer version => exact hfail _ _ (.inr ⟨version, rfl⟩)
  | v7 => exact hnone _ (by decide)
  | legacy => exact hnone _ (by decide)
  | empty => exact hnone _ (by decide)
  | unknown => exact hfail _ _ (.inl rfl)

theorem triple_openArchiveShard (hP : Steady path P) (id : String) :
    Triple Anywhere P (openArchiveShard path id opening)
      (fun shard disk ↦ P disk ∧ (Timed path disk ↔ shard.isSome)) (Failed path P opening) := by
  refine .look_bind fun d hd ↦ ?_
  split
  · exact .bind ((triple_recoverJournal hP).pre_mono fun _ h ↦ h ▸ hd) fun _ ↦ triple_probeAndOpen hP id
  · exact (triple_probeAndOpen hP id).pre_mono fun _ h ↦ h ▸ hd

def Outcome.Sound (outcome : Outcome) : Prop :=
  outcome.busy = true → outcome.opened = none ∧ outcome.quarantine = false

theorem Outcome.Sound.of_not_busy {outcome : Outcome} (h : outcome.busy = false) : outcome.Sound :=
  fun hbusy ↦ absurd (h.symm.trans hbusy) Bool.false_ne_true

variable {Q R : Disk L → Prop} {stem : String} {reopening : Opening}

theorem triple_migrateAndReopen (hQ : Steady path Q) (hR : ∀ disk, Q disk → R disk)
    (hmigrate : Triple Anywhere P (migratePathToV8 format path) (fun _ ↦ Q) fun _ ↦ R)
    (hremove : Triple Anywhere (fun disk ↦ Q disk ∧ Timed path disk) (removeSidecars path) (fun _ ↦ R)
      fun _ ↦ R) :
    Triple Anywhere P (migrateAndReopen format path stem reopening)
      (fun outcome disk ↦ R disk ∧ outcome.quarantine = false ∧ outcome.Sound) fun _ _ ↦ False := by
  refine .bind_attempt hmigrate (fun _ ↦ ?_) fun error ↦ .ret fun _ h ↦ ⟨h, rfl, fun _ ↦ ⟨rfl, rfl⟩⟩
  refine .bind_attempt (triple_openArchiveShard hQ stem) (fun shard ↦ ?_) fun error ↦
    .ret fun disk h ↦ ⟨hR disk h.1, rfl, fun _ ↦ ⟨rfl, rfl⟩⟩
  cases shard with
  | none => exact .ret fun disk h ↦ ⟨hR disk h.1, rfl, .of_not_busy rfl⟩
  | some shard =>
    have hopened : Triple Anywhere (fun disk : Disk L ↦ Q disk ∧ (Timed path disk ↔ (some shard).isSome))
        (removeSidecars path) (fun _ ↦ R) fun _ ↦ R := hremove.pre_mono fun _ h ↦ ⟨h.1, h.2.mpr rfl⟩
    refine .bind_attempt hopened (fun _ ↦ .ret fun _ h ↦ ?_) fun _ ↦ .ret fun _ h ↦ ?_
    · exact ⟨h, rfl, .of_not_busy rfl⟩
    · exact ⟨h, rfl, .of_not_busy rfl⟩

theorem triple_openOrMigrate {disabled : Bool} {weather : Weather} (hP : Steady path P)
    (hR : ∀ disk, P disk → R disk)
    (hmigrate : Triple Anywhere (fun disk ↦ P disk ∧ ¬Timed path disk)
      (migrateAndReopen format path stem weather.reopening)
      (fun outcome disk ↦ R disk ∧ outcome.quarantine = false ∧ outcome.Sound) fun _ _ ↦ False) :
    Triple Anywhere P (openOrMigrate format disabled path stem weather)
      (fun outcome disk ↦ R disk ∧ outcome.Sound ∧
        (Benign path P weather.opening → outcome.quarantine = false)) fun _ _ ↦ False := by
  refine .bind_attempt (triple_openArchiveShard hP stem) (fun shard ↦ ?_) fun error ↦
    .ret fun disk h ↦ ⟨hR disk h.1, fun hbusy ↦ ⟨rfl, ?_⟩, fun hbenign ↦ ?_⟩
  · cases shard with
    | some shard =>
      exact .ret fun disk h ↦ ⟨hR disk h.1, .of_not_busy rfl, fun _ ↦ rfl⟩
    | none =>
      cases disabled with
      | true => exact .ret fun disk h ↦ ⟨hR disk h.1, .of_not_busy rfl, fun _ ↦ rfl⟩
      | false =>
        refine hmigrate.mono (fun disk h ↦ ⟨h.1, fun htimed ↦ ?_⟩)
          (fun _ _ h ↦ ⟨h.1, h.2.2, fun _ ↦ h.2.1⟩) fun _ _ h ↦ h
        exact Bool.false_ne_true (h.2.mp htimed)
  · exact congrArg Bool.not hbusy
  · exact congrArg Bool.not (h.2 hbenign)

theorem Steady.and (hP : Steady path P) (hQ : Steady path Q) : Steady path fun disk ↦ P disk ∧ Q disk where
  replay keepsJournal disk h := ⟨hP.replay keepsJournal disk h.1, hQ.replay keepsJournal disk h.2⟩
  remove disk h hjournal := ⟨hP.remove disk h.1 hjournal, hQ.remove disk h.2 hjournal⟩
  leave disk suffix hsuffix h hnone :=
    ⟨hP.leave disk suffix hsuffix h.1 hnone, hQ.leave disk suffix hsuffix h.2 hnone⟩

theorem Steady.or (hP : Steady path P) (hQ : Steady path Q) : Steady path fun disk ↦ P disk ∨ Q disk where
  replay keepsJournal disk := Or.imp (hP.replay keepsJournal disk) (hQ.replay keepsJournal disk)
  remove disk h hjournal := h.imp (hP.remove disk · hjournal) (hQ.remove disk · hjournal)
  leave disk suffix hsuffix h hnone :=
    h.imp (hP.leave disk suffix hsuffix · hnone) (hQ.leave disk suffix hsuffix · hnone)

def Current (db : Database L) : Prop := db.kind ≠ .unknown ∧ ∀ version, db.kind ≠ .newer version

theorem steady_const (q : Prop) : Steady path fun _ : Disk L ↦ q :=
  ⟨fun _ _ h ↦ h, fun _ h _ ↦ h, fun _ _ _ h _ ↦ h⟩

theorem triple_migrateHolds (hnot : ∀ target, original ≠ .v8 target) :
    Triple Anywhere (Holds path original) (migrateAndReopen format path stem reopening)
      (fun outcome disk ↦ Safe format path original disk ∧ outcome.quarantine = false ∧ outcome.Sound)
      fun _ _ ↦ False := by
  refine triple_migrateAndReopen (steady_replaced.or ((steady_const _).and steady_holds))
    (fun _ h ↦ h.elim .inr fun h ↦ .inl h.2) (triple_migratePathToV8.crash_mono fun _ _ ↦ trivial) ?_
  refine .of_each fun disk h ↦ ?_
  obtain ⟨hreplaced | ⟨-, hholds⟩, target, pending, htimed⟩ := h
  · exact (keeps_removePathSidecars.crash_mono fun _ _ ↦ trivial).mono
      (fun _ (h : _ = disk) ↦ h ▸ hreplaced) (fun _ _ ↦ .inr) fun _ _ ↦ .inr
  · obtain ⟨pending', hget, -⟩ := hholds
    obtain ⟨rfl, -⟩ := File.database.inj (Option.some.inj (hget.symm.trans htimed))
    exact absurd rfl (hnot target)

theorem triple_holds {disabled : Bool} {weather : Weather} :
    Triple Anywhere (Holds path original) (openOrMigrate format disabled path stem weather)
      (fun outcome disk ↦ Safe format path original disk ∧ outcome.Sound ∧
        (weather.opening.Mild → Current original → outcome.quarantine = false)) fun _ _ ↦ False := by
  refine (triple_openOrMigrate steady_holds (fun _ ↦ .inl) (.of_each fun d hd ↦ ?_)).mono (fun _ h ↦ h)
    (fun outcome disk h ↦ ⟨h.1, h.2.1, fun hmild hcurrent ↦ h.2.2 ⟨hmild, fun disk hholds ↦ ?_⟩⟩)
    fun _ _ h ↦ h
  · refine (triple_migrateHolds fun target htarget ↦ ?_).pre_mono fun _ h ↦ h ▸ hd.1
    obtain ⟨pending, hget, -⟩ := hd.1
    exact hd.2 ⟨target, pending, htarget ▸ hget⟩
  · obtain ⟨pending, hget, hpending⟩ := hholds
    exact ⟨⟨original.kind, probeSchema_holds ⟨pending, hget, hpending⟩, hcurrent⟩, original, pending, hget⟩

theorem triple_replaced {disabled : Bool} {weather : Weather} :
    Triple Anywhere (Replaced format path original) (openOrMigrate format disabled path stem weather)
      (fun outcome disk ↦ Safe format path original disk ∧ outcome.Sound ∧
        (weather.opening.Mild → outcome.quarantine = false)) fun _ _ ↦ False := by
  refine (triple_openOrMigrate steady_replaced (fun _ ↦ .inr) (.of_each fun d hd ↦ ?_)).mono (fun _ h ↦ h)
    (fun outcome disk h ↦ ⟨h.1, h.2.1, fun hmild ↦ h.2.2 ⟨hmild, fun disk hreplaced ↦ ?_⟩⟩)
    fun _ _ h ↦ h
  · obtain ⟨copy, -, hwhole, -⟩ := hd.1
    exact absurd ⟨copy, [], hwhole⟩ hd.2
  · obtain ⟨copy, -, hwhole, -⟩ := id hreplaced
    exact ⟨⟨.v8, probeSchema_replaced hreplaced, by decide, fun _ ↦ SchemaKind.noConfusion⟩, _, _, hwhole⟩

theorem triple_file {file : File L} (hfile : ∀ db pending, file ≠ .database db pending)
    {disabled : Bool} {weather : Weather} :
    Triple Anywhere (fun disk ↦ disk.get path = some file)
      (openOrMigrate format disabled path stem weather)
      (fun outcome disk ↦ disk.get path = some file ∧ outcome.Sound) fun _ _ ↦ False := by
  have hmigrate : Keeps Anywhere (fun disk ↦ disk.get path = some file) (migratePathToV8 format path) := by
    refine keeps_unmigrated (fun _ _ ↦ trivial) (stable_get not_staging_path _) fun disk kind h hprobe ↦ ?_
    rw [h] at hprobe
    have hempty : kind = .empty := by
      cases file with
      | database db pending => exact absurd rfl (hfile db pending)
      | unfinished => cases hprobe
      | plain len =>
        cases len with
        | zero => exact (Except.ok.inj hprobe).symm
        | succ len => cases hprobe
    subst hempty
    exact ⟨by decide, by decide⟩
  have hremove : Keeps Anywhere (fun disk ↦ disk.get path = some file) (removeSidecars path : Cut L Unit) :=
    keeps_removeSidecars (fun _ _ ↦ trivial) (stable_get not_ofSidecar _)
      fun suffix hsuffix ↦ ⟨suffix, hsuffix, rfl⟩
  have hreopen : Triple Anywhere (fun disk ↦ disk.get path = some file)
      (migrateAndReopen format path stem weather.reopening)
      (fun outcome disk ↦ disk.get path = some file ∧ outcome.quarantine = false ∧ outcome.Sound)
      fun _ _ ↦ False :=
    triple_migrateAndReopen (steady_file hfile) (fun _ h ↦ h) hmigrate (hremove.pre_mono fun _ h ↦ h.1)
  exact (triple_openOrMigrate (steady_file hfile) (fun _ h ↦ h) (hreopen.pre_mono fun _ h ↦ h.1)).mono
    (fun _ h ↦ h) (fun _ _ h ↦ ⟨h.1, h.2.1⟩) fun _ _ h ↦ h

theorem runTask_spec {disabled : Bool} {weather : Weather} {post : Outcome → Disk L → Prop}
    (h : Triple Anywhere P (openOrMigrate format disabled (archivePath stem) stem weather) post
      fun _ _ ↦ False) (hdisk : P disk) :
    post (runTask format disabled stem weather disk).1 (runTask format disabled stem weather disk).2 := by
  have hend := (h ⟨disk, weather.migration, [disk]⟩ hdisk).2
  rw [runTask]
  revert hend
  cases (openOrMigrate format disabled (archivePath stem) stem weather
    ⟨disk, weather.migration, [disk]⟩).1 with
  | ok outcome => exact fun hend ↦ hend
  | error error => exact False.elim

end QueQiao.ArchiveScan
