/-
  Kafka as the services see it: topics, and the record a consumer is handed.

  The topics are the constants of the services (`TOPIC_CREATED`, … in the posts service,
  `store.TopicTokenRevoke` in auth); `HANDLERS` and `TOPICS` of the related consumer name the same
  four.
-/
import DjangoFlaskKafka.Python

namespace DjangoFlaskKafka.Kafka

open Python

/-- The topics. -/
inductive Topic where
  | postCreated
  | postUpdated
  | postDeleted
  | tokenRevoked
  deriving DecidableEq, Repr

/-- The topic's name on the broker. -/
def Topic.name : Topic → String
  | .postCreated => "post_created"
  | .postUpdated => "post_updated"
  | .postDeleted => "post_deleted"
  | .tokenRevoked => "token_revoked"

/-- A partition of a topic. -/
structure TopicPartition where
  topic : Topic
  partition : Nat
  deriving DecidableEq, Repr

/-- A header is its key and the bytes of its value. -/
instance decidableEqHeader : DecidableEq (String × ByteArray) := fun h h' =>
  decidable_of_iff (h.1 = h'.1 ∧ h.2.data = h'.2.data) (by
    rw [Prod.ext_iff, ByteArray.ext_iff])

/-- A stored record: its headers (`none` when the producer set none) and its decoded value. -/
structure Record where
  headers : Option (List (String × ByteArray))
  value : Json

/-- A record as the consumer receives it, with the place it was read from. -/
structure Message where
  topic : Topic
  partition : Nat
  offset : Nat
  headers : Option (List (String × ByteArray))
  value : Json

/-- The record at an offset of a partition, as a message. -/
def Record.message (r : Record) (tp : TopicPartition) (offset : Nat) : Message where
  topic := tp.topic
  partition := tp.partition
  offset := offset
  headers := r.headers
  value := r.value

/-- `dict(headers)[key]`: the last header of that name wins. -/
def header (headers : List (String × ByteArray)) (key : String) : Option ByteArray :=
  headers.reverse.lookup key

end DjangoFlaskKafka.Kafka
