import QueQiao.Lib.Polling
import Mathlib.Algebra.Order.Group.Nat
import Mathlib.Data.List.Infix

namespace QueQiao.StreamHandler

open Lib.Polling PollStream

def debugRawBodyTailLimit : ℕ := 16 * 1024

def appendDebugRawBodyTail (tail bytes : List UInt8) : List UInt8 :=
  if debugRawBodyTailLimit ≤ bytes.length then bytes.drop (bytes.length - debugRawBodyTailLimit)
  else
    -- at most the length of the tail, so that it can be drained
    let overflow := tail.length + bytes.length - debugRawBodyTailLimit
    tail.drop overflow ++ bytes

/-- The newest bytes of a body, as many as are kept. -/
structure IsTail (tail body : List UInt8) : Prop where
  suffix : tail <:+ body
  length : tail.length = min body.length debugRawBodyTailLimit

section Chunks

variable {tail body : List UInt8}

theorem isTail_nil : IsTail [] [] := ⟨List.nil_suffix, rfl⟩

theorem IsTail.append (h : IsTail tail body) (bytes : List UInt8) :
    IsTail (appendDebugRawBodyTail tail bytes) (body ++ bytes) := by
  have hlength := h.length
  rw [appendDebugRawBodyTail]
  by_cases hlarge : debugRawBodyTailLimit ≤ bytes.length
  · rw [if_pos hlarge]
    refine ⟨(List.drop_suffix _ _).trans (List.suffix_append _ _), ?_⟩
    rw [List.length_drop, List.length_append]
    omega
  · -- the bytes that overflow are the oldest of the tail
    rw [if_neg hlarge]
    refine ⟨List.suffix_append_self_iff.mpr ((List.drop_suffix _ _).trans h.suffix), ?_⟩
    rw [List.length_append, List.length_drop, List.length_append]
    omega

theorem IsTail.foldl (h : IsTail tail body) (chunks : List (List UInt8)) :
    IsTail (chunks.foldl appendDebugRawBodyTail tail) (body ++ chunks.flatten) := by
  induction chunks generalizing tail body with
  | nil =>
    rw [List.flatten_nil, List.append_nil]
    exact h
  | cons bytes chunks ih =>
    rw [List.foldl_cons, List.flatten_cons, ← List.append_assoc]
    exact ih (h.append bytes)

end Chunks

inductive UpstreamBodyStream (σ : Type)
  | passthrough (inner : σ)
  | capturing (inner : σ) (tail : List UInt8)

section Stream

variable {ε : Type}

def UpstreamBodyStream.pollNext {σ : Type} (poll : σ → Poll (Except ε (List UInt8)) × σ) :
    UpstreamBodyStream σ → Poll (Except ε (List UInt8)) × UpstreamBodyStream σ
  | .passthrough inner => ((poll inner).1, .passthrough (poll inner).2)
  | .capturing inner tail =>
    match (poll inner).1 with
    | .ready (some (.ok bytes)) =>
      (.ready (some (.ok bytes)),
        .capturing (poll inner).2 (appendDebugRawBodyTail tail bytes))
    | other => (other, .capturing (poll inner).2 tail)

def UpstreamBodyStream.tail? {σ : Type} : UpstreamBodyStream σ → Option (List UInt8)
  | .passthrough _ => none
  | .capturing _ tail => some tail

def makeUpstreamBodyStream (stream : PollStream (Except ε (List UInt8))) (captureEnabled : Bool) :
    PollStream (Except ε (List UInt8)) where
  State := UpstreamBodyStream stream.State
  start := if captureEnabled then .capturing stream.start [] else .passthrough stream.start
  poll := UpstreamBodyStream.pollNext stream.poll

def chunk : Poll (Except ε (List UInt8)) → Option (List UInt8)
  | .ready (some (.ok bytes)) => some bytes
  | _ => none

/-- The chunks that the first `n` polls give. -/
def chunks (stream : PollStream (Except ε (List UInt8))) (n : ℕ) : List (List UInt8) :=
  (List.range n).filterMap fun k ↦ chunk (stream.answer k)

variable (stream : PollStream (Except ε (List UInt8)))

theorem chunks_succ (n : ℕ) :
    chunks stream (n + 1) = chunks stream n ++ (chunk (stream.answer n)).toList := by
  rw [chunks, List.range_succ, List.filterMap_append, chunks]
  rfl

theorem pollNext_capturing {σ : Type} (poll : σ → Poll (Except ε (List UInt8)) × σ) (inner : σ)
    (tail : List UInt8) :
    UpstreamBodyStream.pollNext poll (.capturing inner tail) =
      ((poll inner).1, .capturing (poll inner).2
        ((chunk (poll inner).1).toList.foldl appendDebugRawBodyTail tail)) := by
  rw [UpstreamBodyStream.pollNext]
  split
  · rename_i heq
    rw [heq]
    rfl
  · rename_i hother
    have hnone : chunk (poll inner).1 = none := by
      rw [chunk]
      exact hother
    rw [hnone]
    rfl

theorem state_capturing (n : ℕ) :
    (makeUpstreamBodyStream stream true).state n =
      .capturing (stream.state n) ((chunks stream n).foldl appendDebugRawBodyTail []) := by
  induction n with
  | zero => rfl
  | succ n ih =>
    rw [state_succ, state_succ, chunks_succ, List.foldl_append, ih]
    exact congrArg Prod.snd (pollNext_capturing stream.poll _ _)

theorem state_passthrough (n : ℕ) :
    (makeUpstreamBodyStream stream false).state n = .passthrough (stream.state n) := by
  induction n with
  | zero => rfl
  | succ n ih =>
    rw [state_succ, state_succ, ih]
    rfl

theorem answer_makeUpstreamBodyStream (captureEnabled : Bool) (n : ℕ) :
    (makeUpstreamBodyStream stream captureEnabled).answer n = stream.answer n := by
  cases captureEnabled with
  | false =>
    rw [answer, state_passthrough]
    rfl
  | true =>
    rw [answer, state_capturing]
    exact congrArg Prod.fst (pollNext_capturing stream.poll _ _)

end Stream

/-- However a body is cut into chunks, its newest bytes are kept, and the stream that captures them
gives the chunks on as they are. -/
theorem debugRawBodyTail_newest :
    (∀ chunks : List (List UInt8),
      let tail := chunks.foldl appendDebugRawBodyTail []
      tail <:+ chunks.flatten ∧ tail.length = min chunks.flatten.length 16384) ∧
    ∀ (ε : Type) (stream : PollStream (Except ε (List UInt8))) (n : ℕ),
      (makeUpstreamBodyStream stream true).answer n = stream.answer n ∧
      ∃ tail, ((makeUpstreamBodyStream stream true).state n).tail? = some tail ∧
        tail <:+ (chunks stream n).flatten ∧
        tail.length = min (chunks stream n).flatten.length 16384 := by
  have htail : ∀ chunks : List (List UInt8),
      IsTail (chunks.foldl appendDebugRawBodyTail []) chunks.flatten :=
    fun chunks ↦ isTail_nil.foldl chunks
  constructor
  · exact fun chunks ↦ ⟨(htail chunks).suffix, (htail chunks).length⟩
  · intro ε stream n
    have h := htail (chunks stream n)
    refine ⟨answer_makeUpstreamBodyStream stream true n, _, ?_, h.suffix, h.length⟩
    rw [state_capturing]
    rfl

end QueQiao.StreamHandler
