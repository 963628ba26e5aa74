import Mathlib.Data.List.Forall2
import QueQiao.Handlers.AudioHandler

namespace QueQiao.AudioHandler

/-- What `next_field` returns, call by call, until there is no further field: a field of the form,
or the error that ends the reading. -/
abbrev Upload := List (Except String Field)

/-- The fields that the loop of `handle_audio_request` sees. -/
def fieldsRead : Upload → List Field
  | [] => []
  | .ok field :: rest => field :: fieldsRead rest
  | .error _ :: _ => []

section Upload

variable (fromUtf8Lossy : Bytes → String)

/-- The first part of `handle_audio_request`, up to the call of the dispatcher. -/
def readUpload (upload : Upload) : Except AppError (String × List CachedPart) :=
  readForm fromUtf8Lossy (fieldsRead upload)

/-- A part of the form carries the name and, unless it names the model, the data of a field. -/
structure Carries (field : Field) (part : CachedPart) : Prop where
  name : part.name = field.name.getD ""
  data : ∃ data, field.bytes = .ok data ∧ (part.name ≠ "model" → part.data = data)

/-- Every part of the request is in the form, in the same order. -/
def Forwards (upload : Upload) (form : List CachedPart) : Prop :=
  List.Forall₂ (fun result part ↦ ∃ field, result = .ok field ∧ Carries field part) upload form

def ForwardedOrRejected (isMime : String → Bool) (upload : Upload) : Prop :=
  ∀ model parts, readUpload fromUtf8Lossy upload = .ok (model, parts) →
    ∀ client currentModel, Forwards upload (rebuildForm isMime client currentModel parts)

def Field.isModel (field : Field) : Bool := field.name.getD "" = "model"

def lastModel (fields : List Field) : Option String :=
  (fields.filter Field.isModel).getLast?.map fun field ↦
    (field.bytes.toOption.map fromUtf8Lossy).getD ""

def Readable (fields : List Field) : Prop := ∀ field ∈ fields, field.bytes.isOk = true

/-- All fields are seen, or those that are seen are rejected for their data or for the lack of a
model. -/
def ReadInFull (upload : Upload) : Prop :=
  (∀ result ∈ upload, result.isOk = true) ∨ ¬Readable (fieldsRead upload) ∨
    (lastModel fromUtf8Lossy (fieldsRead upload)).getD "" = ""

variable {fromUtf8Lossy} {fields : List Field} {upload : Upload}

theorem fieldsRead_eq (h : ∀ result ∈ upload, result.isOk = true) :
    (fieldsRead upload).map .ok = upload := by
  induction upload with
  | nil => rfl
  | cons result rest ih =>
    cases result with
    | error e => exact absurd (h _ List.mem_cons_self) Bool.false_ne_true
    | ok field =>
      rw [fieldsRead, List.map_cons, ih fun result hmem ↦ h result (List.mem_cons_of_mem _ hmem)]

theorem length_fieldsRead_lt {result : Except String Field} (hmem : result ∈ upload)
    (h : result.isOk = false) : (fieldsRead upload).length < upload.length := by
  induction upload with
  | nil => cases hmem
  | cons first rest ih =>
    cases first with
    | error e => exact Nat.succ_pos _
    | ok field =>
      rcases List.mem_cons.mp hmem with rfl | hmem
      · cases h
      · exact Nat.succ_lt_succ (ih hmem)

theorem lastModel_cons {field : Field} {data : Bytes} (hdata : field.bytes = .ok data)
    (start : String) :
    (lastModel fromUtf8Lossy (field :: fields)).getD start =
      (lastModel fromUtf8Lossy fields).getD
        (if field.name.getD "" = "model" then fromUtf8Lossy data else start) := by
  rw [lastModel, List.filter_cons]
  by_cases hname : field.name.getD "" = "model"
  · rw [if_pos (by simp [Field.isModel, hname]), if_pos hname, List.getLast?_cons, lastModel]
    cases (fields.filter Field.isModel).getLast? with
    | none => simp [hdata, Except.toOption]
    | some last => rfl
  · rw [if_neg (by simp [Field.isModel, hname]), if_neg hname, lastModel]

def Caches (field : Field) (part : CachedPart) : Prop :=
  part.name = field.name.getD "" ∧ field.bytes = .ok part.data

theorem cacheParts_readable (h : Readable fields) (modelName : String)
    (cachedParts : List CachedPart) :
    ∃ parts, List.Forall₂ Caches fields parts ∧
      cacheParts fromUtf8Lossy fields modelName cachedParts =
        .ok ((lastModel fromUtf8Lossy fields).getD modelName, cachedParts ++ parts) := by
  induction fields generalizing modelName cachedParts with
  | nil => exact ⟨[], .nil, by rw [List.append_nil]; rfl⟩
  | cons field fields ih =>
    cases hbytes : field.bytes with
    | error e =>
      have hread := h field List.mem_cons_self
      rw [hbytes] at hread
      cases hread
    | ok data =>
      obtain ⟨parts, hparts, hrest⟩ := ih (fun other hmem ↦ h other (List.mem_cons_of_mem _ hmem))
        (if field.name.getD "" = "model" then fromUtf8Lossy data else modelName)
        (cachedParts ++ [⟨field.name.getD "", data, field.fileName, field.contentType⟩])
      refine ⟨⟨field.name.getD "", data, field.fileName, field.contentType⟩ :: parts,
        .cons ⟨rfl, hbytes⟩ hparts, ?_⟩
      rw [cacheParts, hbytes, lastModel_cons hbytes]
      rw [List.append_assoc, List.singleton_append] at hrest
      exact hrest

theorem cacheParts_unreadable (h : ¬Readable fields) (modelName : String)
    (cachedParts : List CachedPart) :
    ∃ e, cacheParts fromUtf8Lossy fields modelName cachedParts = .error e := by
  induction fields generalizing modelName cachedParts with
  | nil => exact absurd (fun field hmem ↦ absurd hmem List.not_mem_nil) h
  | cons field fields ih =>
    rw [cacheParts]
    cases hbytes : field.bytes with
    | error e => exact ⟨unreadable e, rfl⟩
    | ok data =>
      apply ih
      intro hrest
      apply h
      intro other hmem
      rcases List.mem_cons.mp hmem with rfl | hmem
      · rw [hbytes]
        rfl
      · exact hrest other hmem

theorem readForm_eq_ok_iff :
    (∃ result, readForm fromUtf8Lossy fields = .ok result) ↔
      Readable fields ∧ (lastModel fromUtf8Lossy fields).getD "" ≠ "" := by
  by_cases hread : Readable fields
  · obtain ⟨parts, -, hparts⟩ := @cacheParts_readable fromUtf8Lossy fields hread "" []
    rw [readForm, hparts]
    dsimp only
    split
    · rename_i hmodel
      simp [hmodel]
    · rename_i hmodel
      simp [hread, hmodel]
  · obtain ⟨e, he⟩ := @cacheParts_unreadable fromUtf8Lossy fields hread "" []
    rw [readForm, he]
    simp [hread]

theorem caches_of_readForm {model : String} {parts : List CachedPart}
    (h : readForm fromUtf8Lossy fields = .ok (model, parts)) : List.Forall₂ Caches fields parts := by
  have hread : Readable fields := (readForm_eq_ok_iff.mp ⟨_, h⟩).1
  obtain ⟨cached, hcached, hparts⟩ := @cacheParts_readable fromUtf8Lossy fields hread "" []
  rw [readForm, hparts] at h
  dsimp only at h
  split at h
  · cases h
  · cases h
    exact hcached

theorem carries_rebuildForm {parts : List CachedPart} (h : List.Forall₂ Caches fields parts)
    (isMime : String → Bool) (client : ClientConfig) (currentModel : String) :
    List.Forall₂ Carries fields (rebuildForm isMime client currentModel parts) := by
  rw [rebuildForm, List.forall₂_map_right_iff]
  apply h.imp
  intro field part hpart
  refine ⟨hpart.1, part.data, hpart.2, ?_⟩
  intro hname
  exact if_neg fun hmodel ↦ hname hmodel.1

/-- A request is forwarded in full or rejected exactly if each of its parts is seen, or those that
are seen are rejected. -/
theorem forwardedOrRejected_iff (fromUtf8Lossy : Bytes → String) (isMime : String → Bool)
    (upload : Upload) :
    ForwardedOrRejected fromUtf8Lossy isMime upload ↔ ReadInFull fromUtf8Lossy upload := by
  constructor
  · intro hforwarded
    by_contra hnot
    simp only [ReadInFull, not_or, not_not] at hnot
    obtain ⟨hfailed, hread, hmodel⟩ := hnot
    push Not at hfailed
    obtain ⟨result, hmem, hfailed⟩ := hfailed
    obtain ⟨⟨model, parts⟩, hform⟩ := readForm_eq_ok_iff.mpr ⟨hread, hmodel⟩
    have hforwards := hforwarded model parts hform { name := "" } model
    have hlength := hforwards.length_eq
    have hcached := (caches_of_readForm hform).length_eq
    have hshort := length_fieldsRead_lt hmem (by simpa using hfailed)
    rw [rebuildForm, List.length_map] at hlength
    omega
  · rintro hfull model parts hform client currentModel
    obtain ⟨hread, hmodel⟩ := readForm_eq_ok_iff.mp ⟨_, hform⟩
    have hall : ∀ result ∈ upload, result.isOk = true :=
      hfull.resolve_right fun h ↦ h.elim (fun hnot ↦ hnot hread) hmodel
    have hcarries := carries_rebuildForm (caches_of_readForm hform) isMime client currentModel
    rw [Forwards, ← fieldsRead_eq hall, List.forall₂_map_left_iff]
    exact hcarries.imp fun field part hpart ↦ ⟨field, rfl, hpart⟩

/-- The model and half of the form are read, and then the stream breaks. -/
def brokenUpload : Upload :=
  [.ok { name := some "model", bytes := .ok [119] },
    .ok { name := some "file", bytes := .ok [1, 2, 3] }, .error "stream ended"]

theorem broken_upload_dispatched :
    ¬ForwardedOrRejected (fun data ↦ String.ofList (data.map fun b ↦ Char.ofNat b.toNat))
      (fun _ ↦ true) brokenUpload := by
  intro hforwarded
  have hforwards := hforwarded "w" _ rfl { name := "" } "w"
  exact absurd hforwards.length_eq (by decide)

end Upload

end QueQiao.AudioHandler
