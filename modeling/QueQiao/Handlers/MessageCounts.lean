import QueQiao.Handlers.AnthropicMessage

namespace QueQiao.StreamLoggers

open StreamHandler RequestMetrics AnthropicStreamAccumulator

variable (serdeFromStr : String → Option Json)

/-- No delta comes to a block that takes no text; there is content or an upstream error; and the last
usage of the message has both counts, or the events give none. -/
def MessagesCounted (outcome : StreamOutcome) (received : List String) : Prop :=
  let events := messageEvents serdeFromStr received
  DeltasFit events ∧ (HasContent events ∨ outcome = .upstreamError) ∧
    ((complete (givenUsages events).getLast?).isSome = true ∨
      reported (events.filterMap messageUsage) = 0)

theorem anthropicStreamLoggerTask_countsOnce (args : LoggerArgs) (outcome : StreamOutcome)
    (received : List String) :
    (anthropicStreamLoggerTask serdeFromStr args outcome received).CountsOnce
        (reported (messageUsages serdeFromStr received)) ↔
      MessagesCounted serdeFromStr outcome received := by
  obtain ⟨stop, hrun⟩ := receiveMessages_eq serdeFromStr {} received
  rw [← messageEvents] at hrun
  have hfit : (handleAll {} (messageEvents serdeFromStr received)).isSome = true ↔
      DeltasFit (messageEvents serdeFromStr received) := isSome_handleAll_iff tracks_nil
  have husages : messageUsages serdeFromStr received =
      (messageEvents serdeFromStr received).filterMap messageUsage := rfl
  rw [Emitted.CountsOnce, anthropicStreamLoggerTask, hrun]
  dsimp only [MessagesCounted]
  rw [← hfit, ← husages]
  cases hacc : handleAll {} (messageEvents serdeFromStr received) with
  | none =>
    constructor
    · rintro ⟨h, -⟩
      cases h
    · rintro ⟨h, -⟩
      cases h
  | some acc =>
    have htracks : Tracks (messageEvents serdeFromStr received) acc := tracks_nil.handleAll hacc
    have hcollects : Collects (messageEvents serdeFromStr received) acc :=
      collects_nil.handleAll hacc
    have hlast : ∀ usage, acc.usage = some usage →
        (messageUsages serdeFromStr received).getLast? = some usage := by
      intro usage husage
      rw [hacc] at hrun
      simpa using receiveMessages_usage serdeFromStr hrun husage
    have htokens := complete_getD_eq_reported hlast
    rw [← hcollects.usage, ← htracks.hasContent_iff, Option.isSome_some, and_iff_right rfl]
    simp only [Option.map_some]
    split
    · rename_i hevent
      rw [Bool.or_eq_true, decide_eq_true_eq] at hevent
      rw [List.map_singleton, List.sum_singleton, tokens_event, bothCounts_getD]
      constructor
      · rintro ⟨-, h⟩
        exact ⟨hevent, htokens.mp ((zero_add _).symm.trans h)⟩
      · rintro ⟨-, h⟩
        exact ⟨rfl, (zero_add _).trans (htokens.mpr h)⟩
    · rename_i hevent
      rw [Bool.or_eq_true, decide_eq_true_eq] at hevent
      exact iff_of_false (fun h ↦ by cases h.1) fun h ↦ hevent h.1

end QueQiao.StreamLoggers
