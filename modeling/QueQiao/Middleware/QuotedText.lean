import QueQiao.Handlers.ErrorLogFaults
import QueQiao.Middleware.EscapedText

namespace QueQiao.AccessLog

open ErrorLogApi Lib.ByteIndex

variable (unprintable : Char → Bool)

theorem trips_escapeDebug {c : Char} {text : Text} (h : Trips (escapeDebug unprintable c ++ text)) :
    Trips text := by
  have hwritten := written_escapeDebug unprintable c
  generalize escapeDebug unprintable c = written at hwritten h
  cases hwritten with
  | named he =>
    obtain ⟨hu, hascii⟩ := named_ascii _ he
    exact (trips_escape_iff hu hascii).mp h
  | number =>
    simp only [List.append_assoc, List.cons_append, List.nil_append] at h
    exact (trips_unicode_iff (not_mem_digits digitChar_ne_close c.toNat)).mp h
  | plain hquote hback => exact (trips_plain_iff hquote hback).mp h

theorem not_trips_escaped (s r : Text) :
    ¬Trips (s.flatMap (escapeDebug unprintable) ++ '"' :: r) := by
  induction s with
  | nil => exact not_trips_quote
  | cons c s ih =>
    rw [List.flatMap_cons, List.append_assoc]
    exact mt (trips_escapeDebug unprintable) ih

theorem debugStr_append (s : String) (r : Text) :
    debugStr unprintable s ++ r =
      '"' :: (s.toList.flatMap (escapeDebug unprintable) ++ '"' :: r) := by
  simp [debugStr]

theorem trimStart_debugStr (s : String) (r : Text) :
    trimStart (debugStr unprintable s ++ r) = debugStr unprintable s ++ r := by
  rw [debugStr_append]
  exact trimStart_quoted _

theorem not_tripsAt_debugStr (s : String) (r : Text) :
    ¬TripsAt (debugStr unprintable s ++ r) := by
  rintro ⟨text, htrim, htrips⟩
  rw [trimStart_debugStr, debugStr_append] at htrim
  rw [← (List.cons.inj htrim).2] at htrips
  exact not_trips_escaped unprintable s.toList r htrips

/-- What has been quoted is read as it was, and the bytes of the quotation are consumed: the
text behind it is left. -/
theorem parseDebugStringAt_debugStr (s : String) (r : Text) :
    parseDebugStringAt (debugStr unprintable s ++ r) =
        .ok (some (s.toList, byteLen (debugStr unprintable s))) ∧
      (takeQuotedAt (debugStr unprintable s ++ r)).run = .ok (some (s.toList, r)) := by
  have htrim := trimStart_debugStr unprintable s r
  have htrips := not_tripsAt_debugStr unprintable s r
  have htake := takeQuoted_debugStr unprintable s htrim
  constructor
  · have hparse := (parseDebugStringAt_spec (debugStr unprintable s ++ r)).ok htrips
    rw [htake, htrim, byteLen_append, Option.map_some, Nat.add_sub_cancel] at hparse
    exact hparse
  · rw [(takeQuotedAt_spec (debugStr unprintable s ++ r)).ok htrips, htake]

example : parseDebugStringAt (debugStr (· == '\x07') "a\n\x07\"" ++ " x".toList) =
    .ok (some ("a\n\x07\"".toList, 12)) := by decide +kernel

end QueQiao.AccessLog
