namespace QueQiao

structure StreamingRequest where
  model : String
  stream : Option Bool
  deriving DecidableEq, Repr

structure PlainRequest where
  model : String
  deriving DecidableEq, Repr

inductive RequestPayload
  | chat (p : StreamingRequest)
  | completion (p : StreamingRequest)
  | embedding (p : PlainRequest)
  | rerank (p : PlainRequest)
  | score (p : PlainRequest)
  | classify (p : PlainRequest)
  | responses (p : StreamingRequest)
  | anthropicMessages (p : StreamingRequest)
  deriving DecidableEq, Repr

namespace RequestPayload

def getModel : RequestPayload → String
  | chat p | completion p | responses p | anthropicMessages p => p.model
  | embedding p | rerank p | score p | classify p => p.model

def setModel (modelName : String) : RequestPayload → RequestPayload
  | chat p => chat { p with model := modelName }
  | completion p => completion { p with model := modelName }
  | embedding p => embedding { p with model := modelName }
  | rerank p => rerank { p with model := modelName }
  | score p => score { p with model := modelName }
  | classify p => classify { p with model := modelName }
  | responses p => responses { p with model := modelName }
  | anthropicMessages p => anthropicMessages { p with model := modelName }

def isStreaming : RequestPayload → Bool
  | chat p | completion p | responses p | anthropicMessages p => p.stream.getD false
  | embedding _ | rerank _ | score _ | classify _ => false

def getEndpoint : RequestPayload → Option String
  | chat _ => some "chat/completions"
  | completion _ => some "completions"
  | embedding _ => some "embeddings"
  | rerank _ => some "rerank"
  | score _ => some "score"
  | classify _ => some "classify"
  | responses _ => some "responses"
  | anthropicMessages _ => some "messages"

def isChat : RequestPayload → Bool
  | chat _ => true
  | _ => false

end RequestPayload

end QueQiao
