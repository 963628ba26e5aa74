import QueQiao.Handlers.ErrorLogBytes
import Mathlib.Data.List.DropRight

namespace QueQiao.ErrorLogApi

open Lib.ByteIndex

theorem trimStart_trimStart (s : Text) : trimStart (trimStart s) = trimStart s :=
  List.dropWhile_idempotent _ _

theorem trim_length_le (s : Text) : (trim s).length ≤ s.length := by
  rw [trim, trimEnd, List.length_reverse]
  refine (List.length_dropWhile_le _ _).trans ?_
  rw [List.length_reverse]
  exact List.length_dropWhile_le _ _

/-- A quoted field that stands at the front of `input` trips. -/
def TripsAt (input : Text) : Prop := ∃ text, trimStart input = '"' :: text ∧ Trips text

section Fields

variable {input value rest : Text}

theorem tripsAt_trimStart : TripsAt (trimStart input) ↔ TripsAt input := by
  rw [TripsAt, TripsAt, trimStart_trimStart]

theorem parseDebugStringAt_spec (input : Text) :
    FaultsWhen .notBoundary (TripsAt input) (parseDebugStringAt input)
      ((takeQuoted input).map fun read ↦
        (read.1, byteLen (trimStart input) - byteLen read.2)) := by
  rw [parseDebugStringAt, takeQuoted, parseDebugString]
  unfold TripsAt
  generalize trimStart input = s
  cases s with
  | nil => exact (FaultsWhen.pure none).congr (by simp)
  | cons c text =>
    obtain ⟨b, hb, hchar⟩ := head_byte c text
    by_cases hc : c = '"'
    · subst hc
      have hquote : (bytes ('"' :: text))[0]? = some (ascii '"') := by
        rw [hb, (hchar '"' (by decide)).mpr rfl]
      have hlen : text.length < byteLen ('"' :: text) + 1 := by
        have hle := length_le_byteLen ('"' :: text)
        rw [List.length_cons] at hle
        omega
      have hspec := @debugScan_spec _ ['"'] text [] _ _ rfl (Nat.lt_succ_self text.length) hlen
      refine FaultsWhen.congr ?_ (q := ∃ t, '"' :: text = '"' :: t ∧ Trips t) (p := Trips text) ?_
      · simp only [hquote, if_true]
        exact hspec
      · simp
    · have hquote : (bytes (c :: text))[0]? ≠ some (ascii '"') := by
        rw [hb, ne_eq, Option.some.injEq]
        exact mt (hchar '"' (by decide)).mp hc
      refine FaultsWhen.congr (p := False) ?_ (by simp [hc])
      simp only [if_neg hquote]
      split
      · rename_i heq
        exact absurd (List.cons.inj heq).1 hc
      · exact .pure none

theorem sliceFrom_consumed (h : takeQuoted input = some (value, rest)) :
    sliceFrom (trimStart input) (byteLen (trimStart input) - byteLen rest) = .ok rest := by
  obtain ⟨text, htrim, hreads⟩ := reads_of_takeQuoted h
  obtain ⟨read, htext, -⟩ := hreads.consumed
  have happ := sliceFrom_append ('"' :: (read ++ ['"'])) rest
  have hsplit : trimStart input = '"' :: (read ++ ['"']) ++ rest := by
    rw [htrim, htext]
    simp
  rw [hsplit, byteLen_append, Nat.add_sub_cancel]
  exact happ

theorem takeQuotedAt_spec (input : Text) :
    FaultsWhen .notBoundary (TripsAt input) (takeQuotedAt input).run (takeQuoted input) := by
  have hspec := parseDebugStringAt_spec (trimStart input)
  have htake : takeQuoted (trimStart input) = takeQuoted input := by
    rw [takeQuoted, takeQuoted, parseDebugString, parseDebugString, trimStart_trimStart]
  rw [trimStart_trimStart, htake] at hspec
  replace hspec := hspec.congr tripsAt_trimStart.symm
  rw [takeQuotedAt]
  cases hread : takeQuoted input with
  | none =>
    rw [hread] at hspec
    refine (hspec.bindSome (r := fun _ ↦ False) (g := fun _ ↦ none) fun v hv ↦ ?_).congr (by simp)
    cases hv
  | some read =>
    rw [hread] at hspec
    have hslice := sliceFrom_consumed hread
    refine (hspec.bindSome (r := fun _ ↦ False) (g := fun _ ↦ some read) ?_).congr (by simp)
    rintro v ⟨rfl⟩
    refine .of_eq ?_
    simp only [hslice]
    rfl

theorem nextTokenAt_eq (input : Text) : nextTokenAt input = .ok (nextToken input) := by
  rw [nextTokenAt, nextToken, findIndex_eq]
  generalize trimStart input = s
  have hsplit := List.takeWhile_append_dropWhile (p := fun c ↦ !isWhiteSpace c) (l := s)
  by_cases hdrop : s.dropWhile (fun c ↦ !isWhiteSpace c) = []
  · rw [hdrop, List.append_nil] at hsplit
    simp only [hdrop, if_true, hsplit]
    rfl
  · have hto := sliceTo_append (s.takeWhile fun c ↦ !isWhiteSpace c)
      (s.dropWhile fun c ↦ !isWhiteSpace c)
    have hfrom := sliceFrom_append (s.takeWhile fun c ↦ !isWhiteSpace c)
      (s.dropWhile fun c ↦ !isWhiteSpace c)
    rw [hsplit] at hto hfrom
    simp only [if_neg hdrop, hto, hfrom]
    rfl

theorem takeQuoted_of_reads {text : Text} (htrim : trimStart input = '"' :: text)
    (h : Reads text value rest) (htrips : ¬Trips text) : takeQuoted input = some (value, rest) :=
  takeQuoted_of_trim htrim (debugLoop_of_reads h htrips (Nat.lt_succ_self _))

end Fields

section KeyValues

variable {input key after : Text}

inductive KvTrips : Text → Prop
  | here {input key text : Text} (hsplit : splitOnceChar '=' input = some (key, '"' :: text)) :
      Trips text → KvTrips input
  | quoted {input key text value rest : Text}
      (hsplit : splitOnceChar '=' input = some (key, '"' :: text)) :
      Reads text value rest → KvTrips (trimStart rest) → KvTrips input
  | plain {input key after : Text} (hsplit : splitOnceChar '=' input = some (key, after))
      (hplain : after.head? ≠ some '"') :
      KvTrips (trimStart (after.dropWhile fun c ↦ !isWhiteSpace c)) → KvTrips input

/-- The value behind `=`, and what is left behind it. -/
def kvValue (after : Text) : Option (Text × Text) :=
  if after.head? = some '"' then parseDebugString after
  else some (after.takeWhile fun c ↦ !isWhiteSpace c, after.dropWhile fun c ↦ !isWhiteSpace c)

theorem kvValue_quoted (text : Text) : kvValue ('"' :: text) = takeQuoted ('"' :: text) :=
  if_pos rfl

theorem trimStart_quoted (text : Text) : trimStart ('"' :: text) = '"' :: text := rfl

theorem kvTrips_iff (hsplit : splitOnceChar '=' input = some (key, after)) :
    KvTrips input ↔ after.head? = some '"' ∧ TripsAt after ∨
      ∃ v, kvValue after = some v ∧ KvTrips (trimStart v.2) := by
  constructor
  · intro h
    cases h with
    | @here _ _ text hsplit' h =>
      obtain ⟨-, rfl⟩ := Prod.mk.inj (Option.some.inj (hsplit.symm.trans hsplit'))
      exact .inl ⟨rfl, text, rfl, h⟩
    | @quoted _ _ text value rest hsplit' hreads h =>
      obtain ⟨-, rfl⟩ := Prod.mk.inj (Option.some.inj (hsplit.symm.trans hsplit'))
      by_cases htrips : Trips text
      · exact .inl ⟨rfl, text, rfl, htrips⟩
      · have htake := takeQuoted_of_reads (trimStart_quoted text) hreads htrips
        exact .inr ⟨(value, rest), htake, h⟩
    | plain hsplit' hplain h =>
      obtain ⟨-, rfl⟩ := Prod.mk.inj (Option.some.inj (hsplit.symm.trans hsplit'))
      exact .inr ⟨_, if_neg hplain, h⟩
  · intro h
    by_cases hquote : after.head? = some '"'
    · obtain ⟨text, rfl⟩ := List.head?_eq_some_iff.mp hquote
      rcases h with ⟨-, _, htrim, htrips⟩ | ⟨⟨value, rest⟩, hvalue, h⟩
      · exact .here hsplit ((List.cons.inj htrim).2 ▸ htrips)
      · rw [kvValue_quoted] at hvalue
        obtain ⟨_, htrim, hreads⟩ := reads_of_takeQuoted hvalue
        obtain rfl := (List.cons.inj htrim).2
        exact .quoted hsplit hreads h
    · rcases h with ⟨hquote', -⟩ | ⟨v, hvalue, h⟩
      · exact absurd hquote' hquote
      · obtain rfl := Option.some.inj ((if_neg hquote).symm.trans hvalue)
        exact .plain hsplit hquote h

theorem kvValueAt_spec (after : Text) :
    FaultsWhen .notBoundary (after.head? = some '"' ∧ TripsAt after) (kvValueAt after)
      ((kvValue after).map fun v ↦ (v.1, byteLen after - byteLen v.2)) := by
  by_cases hquote : after.head? = some '"'
  · obtain ⟨text, rfl⟩ := List.head?_eq_some_iff.mp hquote
    exact (parseDebugStringAt_spec _).congr (and_iff_right hquote)
  · have hsplit := List.takeWhile_append_dropWhile (p := fun c ↦ !isWhiteSpace c) (l := after)
    have hstop := getD_findIndex isWhiteSpace after
    have hto := sliceTo_append (after.takeWhile fun c ↦ !isWhiteSpace c)
      (after.dropWhile fun c ↦ !isWhiteSpace c)
    have hlen := byteLen_append (after.takeWhile fun c ↦ !isWhiteSpace c)
      (after.dropWhile fun c ↦ !isWhiteSpace c)
    rw [hsplit] at hto hlen
    refine (FaultsWhen.of_eq ?_).congr (iff_false_intro fun h ↦ hquote h.1)
    rw [kvValueAt, if_neg hquote, kvValue, if_neg hquote, hstop]
    simp only [hto, Option.map_some, hlen, Nat.add_sub_cancel]
    rfl

theorem sliceFrom_kvValue {v : Text × Text} (h : kvValue after = some v) :
    sliceFrom after (byteLen after - byteLen v.2) = .ok v.2 := by
  by_cases hquote : after.head? = some '"'
  · obtain ⟨text, rfl⟩ := List.head?_eq_some_iff.mp hquote
    rw [kvValue_quoted] at h
    exact sliceFrom_consumed h
  · obtain rfl := Option.some.inj ((if_neg hquote).symm.trans h)
    have hsplit := List.takeWhile_append_dropWhile (p := fun c ↦ !isWhiteSpace c) (l := after)
    have hfrom := sliceFrom_append (after.takeWhile fun c ↦ !isWhiteSpace c)
      (after.dropWhile fun c ↦ !isWhiteSpace c)
    have hlen := byteLen_append (after.takeWhile fun c ↦ !isWhiteSpace c)
      (after.dropWhile fun c ↦ !isWhiteSpace c)
    rw [hsplit] at hfrom hlen
    dsimp only
    rw [hlen, Nat.add_sub_cancel]
    exact hfrom

theorem kvValue_length_le {v : Text × Text} (h : kvValue after = some v) :
    (trimStart v.2).length ≤ after.length := by
  have htrim : (trimStart v.2).length ≤ v.2.length := List.length_dropWhile_le _ _
  by_cases hquote : after.head? = some '"'
  · obtain ⟨text, rfl⟩ := List.head?_eq_some_iff.mp hquote
    rw [kvValue_quoted] at h
    obtain ⟨_, htext, hreads⟩ := reads_of_takeQuoted h
    obtain rfl := (List.cons.inj htext).2
    have hlt := hreads.length_lt
    rw [List.length_cons]
    omega
  · obtain rfl := Option.some.inj ((if_neg hquote).symm.trans h)
    exact htrim.trans (List.length_dropWhile_le _ _)

theorem not_kvTrips (h : splitOnceChar '=' input = none) : ¬KvTrips input := by
  intro htrips
  cases htrips with
  | here hsplit => cases h.symm.trans hsplit
  | quoted hsplit => cases h.symm.trans hsplit
  | plain hsplit => cases h.symm.trans hsplit

theorem parseKvFieldsAt_spec {fuel : ℕ} (hfuel : input.length ≤ fuel) :
    FaultsWhen .notBoundary (KvTrips input) (parseKvFieldsAt fuel input)
      (parseKvFields fuel input) := by
  induction fuel generalizing input with
  | zero =>
    obtain rfl := List.eq_nil_of_length_eq_zero (Nat.le_zero.mp hfuel)
    exact (FaultsWhen.pure []).congr (iff_false_intro (not_kvTrips rfl))
  | succ fuel ih =>
    rw [parseKvFieldsAt, parseKvFields]
    cases hsplit : splitOnceChar '=' input with
    | none =>
      have hindex : findIndex (· = '=') input = none := by
        refine findIndex_eq_none.mpr fun x hx ↦ decide_eq_false ?_
        rintro rfl
        exact splitOnceChar_eq_none hsplit hx
      rw [hindex]
      exact (FaultsWhen.pure []).congr (iff_false_intro (not_kvTrips hsplit))
    | some split =>
      obtain ⟨key, after⟩ := split
      obtain ⟨hinput, hkey⟩ := splitOnceChar_eq_some hsplit
      have hindex : findIndex (· = '=') input = some (byteLen key) := by
        rw [hinput]
        refine findIndex_append (c := '=') (fun x hx ↦ decide_eq_false ?_) rfl after
        rintro rfl
        exact hkey hx
      have hto : sliceTo input (byteLen key) = .ok key := by
        rw [hinput]
        exact sliceTo_append key _
      have hfrom : sliceFrom input (byteLen key + 1) = .ok after := by
        have happ := sliceFrom_append (key ++ ['=']) after
        rw [byteLen_append, List.append_assoc] at happ
        rw [hinput]
        exact happ
      have hlength : after.length ≤ fuel := by
        rw [hinput, List.length_append, List.length_cons] at hfuel
        omega
      rw [hindex]
      simp only [hto, hfrom]
      refine ((kvValueAt_spec after).bind
        (q := ∃ v, kvValue after = some v ∧ KvTrips (trimStart v.2)) ?_).congr (kvTrips_iff hsplit)
      cases hvalue : kvValue after with
      | none =>
        rw [kvValue] at hvalue
        rw [hvalue]
        exact (FaultsWhen.pure []).congr (by simp)
      | some v =>
        have hrest := ih ((kvValue_length_le hvalue).trans hlength)
        have hslice := sliceFrom_kvValue hvalue
        rw [kvValue] at hvalue
        rw [hvalue]
        simp only [Option.map_some, hslice]
        refine FaultsWhen.congr (hrest.map ((trim key, v.1) :: ·)) ?_
        simp

end KeyValues

section Cap

theorem takeBytes_eq (n : ℕ) (msg : Text) : takeBytes n msg = takeFit n msg := by
  induction msg generalizing n with
  | nil => rfl
  | cons c msg ih => rw [takeBytes, takeFit, ih]

theorem truncateErrorAt_eq (msg : Text) : truncateErrorAt msg = .ok (truncateError msg) := by
  by_cases htotal : byteLen msg ≤ maxErrorBytes
  · rw [truncateErrorAt, truncateError, if_pos htotal]
    exact congrArg Except.ok (if_pos htotal).symm
  · have hto := sliceTo_takeFit (Nat.lt_of_not_le htotal)
    rw [boundaryDown_eq, ← takeBytes_eq] at hto
    rw [truncateErrorAt, truncateError, if_neg htotal]
    simp only [hto]
    exact congrArg Except.ok (if_neg htotal).symm

theorem capErrorAt_eq (entry : LogEntry) : capErrorAt entry = .ok (capError entry) := by
  unfold capErrorAt capError
  cases entry.error with
  | none => rfl
  | some msg =>
    simp only [truncateErrorAt_eq]
    rfl

end Cap

section Line

inductive Field
  | quoted
  | token

def accessFields : List Field :=
  [.quoted, .token, .token, .quoted, .quoted, .token, .quoted, .quoted, .quoted]

/-- A quoted field trips among `fields`, or in the body that is left behind them. -/
inductive TripsIn : List Field → Text → Prop
  | body {input : Text} : TripsAt (trim input) → TripsIn [] input
  | here {fields : List Field} {input : Text} : TripsAt input → TripsIn (.quoted :: fields) input
  | quoted {fields : List Field} {input text value rest : Text}
      (htrim : trimStart input = '"' :: text) :
      Reads text value rest → TripsIn fields rest → TripsIn (.quoted :: fields) input
  | token {fields : List Field} {input : Text} :
      TripsIn fields (trimStart ((trimStart input).dropWhile fun c ↦ !isWhiteSpace c)) →
        TripsIn (.token :: fields) input

variable {fields : List Field} {input : Text}

theorem tripsIn_nil_iff : TripsIn [] input ↔ TripsAt (trim input) := by
  constructor
  · rintro ⟨h⟩
    exact h
  · exact .body

theorem tripsIn_token_iff :
    TripsIn (.token :: fields) input ↔ TripsIn fields (nextToken input).2 := by
  constructor
  · rintro ⟨h⟩
    assumption
  · exact .token

theorem tripsIn_quoted_iff :
    TripsIn (.quoted :: fields) input ↔
      TripsAt input ∨ ∃ v, takeQuoted input = some v ∧ TripsIn fields v.2 := by
  constructor
  · intro h
    cases h with
    | here h => exact .inl h
    | @quoted _ _ text value rest htrim hreads h =>
      by_cases htrips : Trips text
      · exact .inl ⟨text, htrim, htrips⟩
      · exact .inr ⟨(value, rest), takeQuoted_of_reads htrim hreads htrips, h⟩
  · rintro (h | ⟨⟨value, rest⟩, htake, h⟩)
    · exact .here h
    · obtain ⟨text, htrim, hreads⟩ := reads_of_takeQuoted htake
      exact .quoted htrim hreads h

/-- A quoted field of a line trips, or a value of an interruption does. -/
inductive LineTrips (line : Text) : Prop
  | interrupted {time rest : Text} (hline : interruption line = some (time, rest)) :
      KvTrips (trim (rest.drop streamInterrupted.length)) → LineTrips line
  | access {ip time rest rest' : Text} (hline : interruption line = none)
      (hip : splitOnce " - - [".toList line = some (ip, rest))
      (htime : splitOnce "] ".toList rest = some (time, rest')) :
      TripsIn accessFields rest' → LineTrips line

theorem run_some_bind {α β : Type} (v : α) (f : α → OptionT (Except Fault) β) :
    (OptionT.mk (pure (some v)) >>= f).run = (f v).run := by
  rw [OptionT.run_bind]
  rfl

theorem takeQuotedAt_bind {f : Text × Text → OptionT (Except Fault) CappedEntry}
    {g : Text × Text → Option LogEntry}
    (hf : ∀ v, FaultsWhen .notBoundary (TripsIn fields v.2) (f v).run ((g v).map capError)) :
    FaultsWhen .notBoundary (TripsIn (.quoted :: fields) input) (takeQuotedAt input >>= f).run
      (((takeQuoted input).bind g).map capError) := by
  have hbind := (takeQuotedAt_spec input).bindSome fun v _ ↦ hf v
  rw [Option.map_bind]
  exact hbind.congr tripsIn_quoted_iff

theorem nextTokenAt_bind {f : Text × Text → OptionT (Except Fault) CappedEntry}
    {o : Option CappedEntry}
    (hf : FaultsWhen .notBoundary (TripsIn fields (nextToken input).2) (f (nextToken input)).run o) :
    FaultsWhen .notBoundary (TripsIn (.token :: fields) input)
      (OptionT.lift (nextTokenAt input) >>= f).run o := by
  rw [nextTokenAt_eq]
  exact hf.congr tripsIn_token_iff

theorem requestBodyAt_spec (tailRaw : Text) :
    FaultsWhen .notBoundary (TripsIn [] tailRaw) (requestBodyAt tailRaw)
      (if trim tailRaw = [] ∨ trim tailRaw = "\"-\"".toList then none
        else some (((takeQuoted (trim tailRaw)).map (·.1)).getD (trim tailRaw))) := by
  rw [requestBodyAt]
  by_cases htail : trim tailRaw = [] ∨ trim tailRaw = "\"-\"".toList
  · have htrips : ¬TripsAt (trim tailRaw) := by
      rintro ⟨text, htrim, htrips⟩
      rcases htail with hnil | hdash
      · rw [hnil] at htrim
        cases htrim
      · rw [hdash] at htrim
        obtain rfl := (List.cons.inj htrim).2
        exact not_trips_quote ((trips_plain_iff (by decide) (by decide)).mp htrips)
    rw [if_pos htail, if_pos htail]
    exact (FaultsWhen.pure none).congr (iff_false_intro (mt tripsIn_nil_iff.mp htrips))
  · rw [if_neg htail, if_neg htail]
    exact ((takeQuotedAt_spec (trim tailRaw)).map _).congr tripsIn_nil_iff

theorem parseAccessLineAt_spec {time ip rest rest' line : Text}
    (hip : splitOnce " - - [".toList line = some (ip, rest))
    (htime : splitOnce "] ".toList rest = some (time, rest')) :
    FaultsWhen .notBoundary (TripsIn accessFields rest') (parseAccessLineAt line).run
      ((parseAccessLine line).map capError) := by
  rw [parseAccessLineAt, parseAccessLine, hip, run_some_bind]
  simp only [htime, run_some_bind, Option.bind_eq_bind, Option.bind_some]
  refine takeQuotedAt_bind fun request ↦ ?_
  refine nextTokenAt_bind (nextTokenAt_bind ?_)
  refine takeQuotedAt_bind fun referer ↦ ?_
  refine takeQuotedAt_bind fun userAgent ↦ ?_
  refine nextTokenAt_bind ?_
  refine takeQuotedAt_bind fun model ↦ ?_
  refine takeQuotedAt_bind fun apiKey ↦ ?_
  refine takeQuotedAt_bind fun error ↦ ?_
  refine ((requestBodyAt_spec error.2).bindLift (.of_eq ?_)).congr (or_false _).symm.to_iff
  rw [capErrorAt_eq]
  rfl

theorem parseInterrupted_eq (line : Text) :
    parseInterrupted line =
      (interruption line).map fun v ↦ parseStreamInterrupted v.2 v.1 := by
  cases line with
  | nil => rfl
  | cons c stripped =>
    by_cases hc : c = '['
    · rw [hc, parseInterrupted, interruption, Option.map_bind]
      refine congrArg (Option.bind _) (funext fun v ↦ ?_)
      rw [Function.comp_apply]
      dsimp only
      split_ifs <;> rfl
    · have hbracket : ∀ rest, c :: stripped = '[' :: rest → False :=
        fun _ heq ↦ hc (List.cons.inj heq).1
      rw [parseInterrupted, interruption]
      · rfl
      · exact hbracket
      · exact hbracket

theorem interruption_eq_some {line time rest : Text} (h : interruption line = some (time, rest)) :
    trimStart rest = rest ∧ streamInterrupted <+: rest := by
  unfold interruption at h
  split at h
  · obtain ⟨v, -, hv⟩ := Option.bind_eq_some_iff.mp h
    dsimp only at hv
    split at hv
    · rename_i hstarts
      cases hv
      exact ⟨trimStart_trimStart _, hstarts⟩
    · cases hv
  · cases h

theorem parseStreamInterruptedAt_spec {line time rest : Text}
    (h : interruption line = some (time, rest)) :
    FaultsWhen .notBoundary (KvTrips (trim (rest.drop streamInterrupted.length)))
      (parseStreamInterruptedAt rest time) (capError (parseStreamInterrupted rest time)) := by
  obtain ⟨htrim, hstarts⟩ := interruption_eq_some h
  rw [parseStreamInterruptedAt, parseStreamInterrupted]
  simp only [htrim, if_pos hstarts]
  have hlength : (trim (rest.drop streamInterrupted.length)).length ≤
      (rest.drop streamInterrupted.length).length := trim_length_le _
  refine ((parseKvFieldsAt_spec hlength).bind (.of_eq ?_)).congr (or_false _).symm.to_iff
  exact capErrorAt_eq _

theorem accessLine_spec {line : Text} (hline : interruption line = none) :
    FaultsWhen .notBoundary (LineTrips line) (parseAccessLineAt line).run
      ((parseAccessLine line).map capError) := by
  have hiff : LineTrips line ↔ ∃ ip rest time rest',
      splitOnce " - - [".toList line = some (ip, rest) ∧
        splitOnce "] ".toList rest = some (time, rest') ∧ TripsIn accessFields rest' := by
    constructor
    · rintro (⟨hline', -⟩ | ⟨-, hip, htime, h⟩)
      · cases hline.symm.trans hline'
      · exact ⟨_, _, _, _, hip, htime, h⟩
    · rintro ⟨_, _, _, _, hip, htime, h⟩
      exact .access hline hip htime h
  refine FaultsWhen.congr ?_ hiff
  cases hip : splitOnce " - - [".toList line with
  | none =>
    rw [parseAccessLineAt, parseAccessLine, hip]
    exact (FaultsWhen.pure none).congr (by simp)
  | some v =>
    obtain ⟨ip, rest⟩ := v
    cases htime : splitOnce "] ".toList rest with
    | none =>
      rw [parseAccessLineAt, parseAccessLine, hip, run_some_bind]
      simp only [htime, Option.bind_eq_bind, Option.bind_some, Option.bind_none]
      refine (FaultsWhen.pure none).congr (iff_false_intro ?_)
      rintro ⟨_, _, _, _, ⟨rfl, rfl⟩, htime', -⟩
      cases htime.symm.trans htime'
    | some w =>
      obtain ⟨time, rest'⟩ := w
      refine (parseAccessLineAt_spec hip htime).congr ⟨?_, fun h ↦ ⟨_, _, _, _, rfl, htime, h⟩⟩
      rintro ⟨_, _, _, _, ⟨rfl, rfl⟩, htime', h⟩
      cases htime.symm.trans htime'
      exact h

theorem parseLineAt_spec (raw : Text) :
    FaultsWhen .notBoundary (LineTrips (trimEnd raw)) (parseLineAt raw) (parseLineCapped raw) := by
  rw [parseLineAt, parseLineCapped, parseLine]
  generalize trimEnd raw = line
  by_cases hnil : line = []
  · subst hnil
    refine (FaultsWhen.pure _).congr (iff_false_intro ?_)
    rintro (⟨hline, -⟩ | ⟨-, hip, -⟩)
    · cases hline
    · cases hip
  · rw [if_neg hnil, if_neg hnil, parseInterrupted_eq]
    cases hline : interruption line with
    | some v =>
      refine (parseStreamInterruptedAt_spec hline).congr ⟨?_, .interrupted hline⟩
      rintro (⟨hline', h⟩ | ⟨hline', -, -, -⟩)
      · cases hline.symm.trans hline'
        exact h
      · cases hline.symm.trans hline'
    | none =>
      have hget : capError ((parseAccessLine line).getD .unparsed) =
          ((parseAccessLine line).map capError).getD .unparsed := by
        cases parseAccessLine line <;> rfl
      rw [Option.map_none, Option.getD_none, hget]
      exact (accessLine_spec hline).map fun entry ↦ entry.getD .unparsed

theorem parseLine_returns_iff (raw : Text) :
    (∃ entry, parseLineAt raw = .ok entry) ↔ ¬LineTrips (trimEnd raw) :=
  (parseLineAt_spec raw).isOk_iff

def trippingLine : Text :=
  "1.2.3.4 - - [t] \"GET / HTTP/1.1\" 500 12 \"-\" \"\\é\" 0.1 \"m\" \"k\" \"e\" \"-\"".toList

theorem parseLine_trips : ¬∀ raw, ∃ entry, parseLineAt raw = .ok entry := by
  intro h
  obtain ⟨entry, hentry⟩ := h trippingLine
  have hfault : (parseLineAt trippingLine).isOk = false := by decide +kernel
  rw [hentry] at hfault
  cases hfault

end Line

end QueQiao.ErrorLogApi
