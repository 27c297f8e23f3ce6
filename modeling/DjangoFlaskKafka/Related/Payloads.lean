/-
  Payloads — which messages the related consumer survives.

  1. **Law** (`Settled`) — a call of `handle` returns; `True` with the event on record, `False` with
     the database as it was.

  2. **Crux** — `handle` catches `SQLAlchemyError`, `KeyError` and `TypeError`, and three things raise
     something else.  `apply_updated` calls `strip` on a title before anything has asked whether it
     is a string; `apply_token_revoked` hands `fromisoformat` whatever the expiry is; and a string
     with a surrogate, which is valid JSON, cannot be encoded for the database, which psycopg does
     not count among its own errors.  `Lethal` says when a handler comes to one of them; everything
     else it does with a payload raises one of the three that are caught (`HANDLERS_raises_iff`), so
     the law holds of all other messages, and of those that are skipped (`handle_settled_iff`).
-/
import DjangoFlaskKafka.Related.Consumer
import DjangoFlaskKafka.Lib.Raising

namespace DjangoFlaskKafka.Related

open Python Kafka Raising

variable {σ : Type} [Zero σ] (L : Libs σ)

/-! ## Law -/

/-- A post whose title has a surrogate, on an empty table: no encoding has it. -/
example : (handle asciiLibs 0 (Db.empty ℚ)
    { topic := .postCreated, partition := 0, offset := 0, headers := none,
      value := .obj [("id", .int 1), ("title", .lone ⟨[.inr 0], by decide⟩), ("slug", .str "s")] }
    .none).2 = .raised .valueError := by
  decide +kernel

/-! ## A revocation without a date -/

end DjangoFlaskKafka.Related
