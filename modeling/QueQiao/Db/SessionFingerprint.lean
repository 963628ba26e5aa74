import QueQiao.Db.Writer
import QueQiao.Models.Json

namespace QueQiao.SessionFingerprint

open Lib.Transition Audit

def fieldByteCap : ℕ := 8 * 1024

def cacheCapacity : ℕ := 50000

def takeBytes : ℕ → List Char → List Char
  | _, [] => []
  | room, c :: cs => if c.utf8Size ≤ room then c :: takeBytes (room - c.utf8Size) cs else []

def asArray : Json → Option (List Json)
  | .arr items => some items
  | _ => none

section Fingerprint

-- the first bytes of the SHA-256 digest in hexadecimal, and the text of a JSON value
variable (digest : String → String) (render : Json → String)

def cappedText (value : Json) : String :=
  let raw := value.asStr.getD (render value)
  if raw.utf8ByteSize ≤ fieldByteCap then raw
  else String.ofList (takeBytes fieldByteCap raw.toList)

def isSystem (message : Json) : Bool :=
  ((message.get "role").bind Json.asStr).any fun role ↦ role == "system" || role == "developer"

def conversationFingerprint (body : Json) : Option String := do
  let messages ← ((body.get "messages").or (body.get "input")).bind asArray
  let topLevelSystem := (body.get "system").map (cappedText render)
  let leadingSystem := (messages.takeWhile isSystem).getLast?.map fun message ↦
    cappedText render ((message.get "content").getD .null)
  let system := (topLevelSystem.or leadingSystem).getD ""
  let first ← messages.find? fun message ↦ !isSystem message
  let role := ((first.get "role").bind Json.asStr).getD ""
  let content := cappedText render ((first.get "content").getD .null)
  return digest (system ++ "\x1f" ++ role ++ "\x1e" ++ content)

/-- An entry of the cache; `body` is kept beside the text that the code stores. -/
structure Cached where
  fingerprint : String
  body : Json

structure FingerprintCache where
  entries : List (ℤ × Cached) := []
  hits : ℕ := 0
  misses : ℕ := 0

def fingerprintCached (cache : FingerprintCache) (recordId : ℤ) (body : Json) :
    Option String × FingerprintCache :=
  match cache.entries.lookup recordId with
  | some hit => (some hit.fingerprint, { cache with hits := cache.hits + 1 })
  | none =>
    match conversationFingerprint digest render body with
    | none => (none, cache)
    | some computed =>
      let kept := if cacheCapacity ≤ cache.entries.length then [] else cache.entries
      (some computed,
        { cache with
          entries := (recordId, ⟨computed, body⟩) :: kept
          misses := cache.misses + 1 })

end Fingerprint

/-- The process: its writer with the stores of records, and the cache. -/
structure Sessions (α : Type) where
  writer : AuditWriter α
  cache : FingerprintCache := {}

/-- A step of the writer, or a request for the fingerprint of a record of a store. -/
inductive Visit (α : Type)
  | writer (event : Event α)
  | fingerprint (store : ℕ) (recordId : ℤ)

section Sessions

-- `body` stands for the decompression of the request body of a row and the JSON parser
variable {α : Type} (cfg : WriterConfig) (body : α → Option Json) (digest : String → String)
  (render : Json → String)

def recordBody (s : Sessions α) (store : ℕ) (recordId : ℤ) : Option Json :=
  ((s.writer.files store).rows.lookup recordId).bind body

def recordFingerprint (s : Sessions α) (store : ℕ) (recordId : ℤ) :
    Option String × FingerprintCache :=
  match recordBody body s store recordId with
  | none => (none, s.cache)
  | some request => fingerprintCached digest render s.cache recordId request

def step (s : Sessions α) : Visit α → Option (Sessions α)
  | .writer event => (Audit.step cfg s.writer event).map fun writer ↦ { s with writer := writer }
  | .fingerprint store recordId =>
    some { s with cache := (recordFingerprint body digest render s store recordId).2 }

/-- The answer to a request is computed from the body of the record it asks for. -/
def OwnFingerprint (s : Sessions α) : Visit α → Prop
  | .writer _ => True
  | .fingerprint store recordId => ∀ request ∈ recordBody body s store recordId,
      (recordFingerprint body digest render s store recordId).1 =
        conversationFingerprint digest render request

/-- The cache has no entry for the id of the record, or one that was made from a body with the
same fingerprint. -/
def SamePrefix (s : Sessions α) : Visit α → Prop
  | .writer _ => True
  | .fingerprint store recordId => ∀ request ∈ recordBody body s store recordId,
      ∀ cached ∈ s.cache.entries.lookup recordId,
        conversationFingerprint digest render cached.body =
          conversationFingerprint digest render request

instance (s : Sessions α) : DecidablePred (SamePrefix body digest render s)
  | .writer _ => inferInstanceAs (Decidable True)
  | .fingerprint store recordId =>
    inferInstanceAs (Decidable (∀ request ∈ recordBody body s store recordId,
      ∀ cached ∈ s.cache.entries.lookup recordId,
        conversationFingerprint digest render cached.body =
          conversationFingerprint digest render request))

variable {digest render}

def FingerprintCache.Sound (digest : String → String) (render : Json → String)
    (cache : FingerprintCache) : Prop :=
  ∀ recordId cached, cache.entries.lookup recordId = some cached →
    conversationFingerprint digest render cached.body = some cached.fingerprint

theorem sound_fingerprintCached {cache : FingerprintCache} (h : cache.Sound digest render)
    (recordId : ℤ) (request : Json) :
    (fingerprintCached digest render cache recordId request).2.Sound digest render := by
  rw [fingerprintCached]
  cases cache.entries.lookup recordId with
  | some hit => exact h
  | none =>
    cases hcomputed : conversationFingerprint digest render request with
    | none => exact h
    | some computed =>
      intro k cached hcached
      simp only [List.lookup_cons] at hcached
      split at hcached
      · cases hcached
        exact hcomputed
      · split at hcached
        · cases hcached
        · exact h k cached hcached

theorem sound_step {s t : Sessions α} {l : Visit α} (h : s.cache.Sound digest render)
    (hst : step cfg body digest render s l = some t) : t.cache.Sound digest render := by
  cases l with
  | writer event =>
    obtain ⟨w, -, rfl⟩ := Option.map_eq_some_iff.mp hst
    exact h
  | fingerprint store recordId =>
    cases hst
    rw [recordFingerprint]
    cases recordBody body s store recordId with
    | none => exact h
    | some request => exact sound_fingerprintCached h recordId request

theorem fingerprintCached_eq_iff {cache : FingerprintCache} (h : cache.Sound digest render)
    (recordId : ℤ) (request : Json) :
    (fingerprintCached digest render cache recordId request).1 =
      conversationFingerprint digest render request ↔
    ∀ cached, cache.entries.lookup recordId = some cached →
      conversationFingerprint digest render cached.body =
        conversationFingerprint digest render request := by
  rw [fingerprintCached]
  cases hlookup : cache.entries.lookup recordId with
  | some hit =>
    constructor
    · intro hown cached hcached
      cases hcached
      rw [h recordId hit hlookup]
      exact hown
    · intro hsame
      rw [← hsame hit rfl, h recordId hit hlookup]
  | none =>
    constructor
    · intro _ cached hcached
      cases hcached
    · intro _
      cases conversationFingerprint digest render request with
      | none => rfl
      | some computed => rfl

theorem ownFingerprint_iff {s : Sessions α} (h : s.cache.Sound digest render) (l : Visit α) :
    OwnFingerprint body digest render s l ↔ SamePrefix body digest render s l := by
  cases l with
  | writer event => exact Iff.rfl
  | fingerprint store recordId =>
    refine forall_congr' fun request ↦ imp_congr_right fun hrequest ↦ ?_
    rw [recordFingerprint, hrequest]
    exact fingerprintCached_eq_iff h recordId request

theorem fingerprints_own_iff (digest : String → String) (render : Json → String)
    (files : ℕ → Table α) (store : ℕ) (tr : List (Sessions α × Visit α)) (s : Sessions α)
    (h : Path (step cfg body digest render) { writer := start files store } tr s) :
    (∀ p ∈ tr, OwnFingerprint body digest render p.1 p.2) ↔
      ∀ p ∈ tr, SamePrefix body digest render p.1 p.2 := by
  have hsound : Always (fun s : Sessions α ↦ s.cache.Sound digest render) tr s := by
    apply h.always
    · intro recordId cached hcached
      cases hcached
    · intro s l t hs hst
      exact sound_step cfg body hs hst
  refine forall_congr' fun p ↦ imp_congr_right fun hp ↦ ?_
  exact ownFingerprint_iff body (hsound.1 p hp) p.2

end Sessions

def question (text : String) : Json :=
  .obj [("messages", .arr [.obj [("content", .str text), ("role", .str "user")]])]

abbrev visits : Sessions Json → Visit Json → Option (Sessions Json) :=
  step ⟨1, 1⟩ some id fun _ ↦ ""

abbrev emptyStores : Sessions Json := { writer := start (fun _ ↦ .empty) 0 }

def stored (text : String) : List (Visit Json) :=
  [.writer (.enqueue (question text)), .writer .recv, .writer (.attempt .committed)]

def askedTwice : List (Visit Json) := stored "alpha" ++ [.fingerprint 0 1, .fingerprint 0 1]

theorem fingerprints_own_asked_twice :
    ∃ (tr : List (Sessions Json × Visit Json)) (s : Sessions Json),
      Path visits emptyStores tr s ∧ s.cache.hits = 1 ∧
      ∀ p ∈ tr, OwnFingerprint some id (fun _ ↦ "") p.1 p.2 := by
  have hrun : (trace visits emptyStores askedTwice).map (fun r ↦ (r.2.cache.hits,
      r.1.all fun p ↦ decide (SamePrefix some id (fun _ ↦ "") p.1 p.2))) = some (1, true) := by
    decide +kernel
  obtain ⟨⟨tr, s⟩, hr, hs⟩ := Option.map_eq_some_iff.mp hrun
  obtain ⟨hhits, hsame⟩ := Prod.mk.inj hs
  refine ⟨tr, s, Path.of_trace hr, hhits, ?_⟩
  apply (fingerprints_own_iff ⟨1, 1⟩ some id (fun _ ↦ "") (fun _ ↦ .empty) 0 tr s
    (Path.of_trace hr)).mpr
  intro p hp
  exact of_decide_eq_true (List.all_eq_true.mp hsame p hp)

/-- The store is rotated, and the first record of the new store has the id of the one before. -/
def rotatedStore : List (Visit Json) :=
  stored "alpha" ++ [.fingerprint 0 1, .writer (.command .seal), .writer .drain,
    .writer (.checkpoint true), .writer (.command (.resume 1)), .writer (.opened true)] ++
  stored "beta"

theorem fingerprint_of_other_record :
    ∃ (tr : List (Sessions Json × Visit Json)) (s : Sessions Json),
      Path visits emptyStores tr s ∧
      ¬∀ p ∈ tr, OwnFingerprint some id (fun _ ↦ "") p.1 p.2 := by
  have hrun : (trace visits emptyStores rotatedStore).map (fun r ↦
      ((recordBody some r.2 1 1).map (conversationFingerprint id fun _ ↦ ""),
        (recordFingerprint some id (fun _ ↦ "") r.2 1 1).1)) =
      some (some (some "\x1fuser\x1ebeta"), some "\x1fuser\x1ealpha") := by
    decide +kernel
  obtain ⟨⟨tr, s⟩, hr, hs⟩ := Option.map_eq_some_iff.mp hrun
  obtain ⟨hbody, hanswer⟩ := Prod.mk.inj hs
  obtain ⟨request, hrequest, hown⟩ := Option.map_eq_some_iff.mp hbody
  refine ⟨_, _, (Path.of_trace hr).snoc (l := .fingerprint 1 1) rfl, ?_⟩
  intro hall
  have hlast := hall (s, .fingerprint 1 1) (List.mem_append_right _ (List.mem_singleton_self _))
  have heq := (hanswer.symm.trans (hlast request hrequest)).trans hown
  revert heq
  decide

end QueQiao.SessionFingerprint
