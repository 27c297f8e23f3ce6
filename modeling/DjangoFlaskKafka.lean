import DjangoFlaskKafka.Related.Main
import DjangoFlaskKafka.Related.Scaling
import DjangoFlaskKafka.Related.Idempotency
import DjangoFlaskKafka.Related.Commutation
import DjangoFlaskKafka.Related.Payloads
import DjangoFlaskKafka.Related.Deletion
import DjangoFlaskKafka.Related.Score
import DjangoFlaskKafka.Related.Range
import DjangoFlaskKafka.Sync.Redelivery
import DjangoFlaskKafka.Sync.Overtaking
import DjangoFlaskKafka.Sync.Races
import DjangoFlaskKafka.Sync.Maps
import DjangoFlaskKafka.Sync.Denylists
import DjangoFlaskKafka.Sync.Guards
import DjangoFlaskKafka.Sync.Conflicts
import DjangoFlaskKafka.Sync.Revival
import DjangoFlaskKafka.Sync.Pipeline
import DjangoFlaskKafka.Sync.Resubmit
import DjangoFlaskKafka.Sync.Readers
import DjangoFlaskKafka.Sync.Gate
import DjangoFlaskKafka.Posts.Purge
import DjangoFlaskKafka.Posts.Consume
import DjangoFlaskKafka.Posts.Atomicity
import DjangoFlaskKafka.Posts.Payloads
import DjangoFlaskKafka.Relay.KeyOrder
import DjangoFlaskKafka.Relay.Sharing
import DjangoFlaskKafka.Relay.Delivery
import DjangoFlaskKafka.Relay.Drain
import DjangoFlaskKafka.Auth.InFlight
import DjangoFlaskKafka.Auth.Revocation
import DjangoFlaskKafka.Auth.Answers
import DjangoFlaskKafka.Auth.Identity
import DjangoFlaskKafka.Auth.Refresh
import DjangoFlaskKafka.Auth.Publisher
import DjangoFlaskKafka.Auth.Stuck
import DjangoFlaskKafka.Auth.Exclusion
import DjangoFlaskKafka.Auth.Login
import DjangoFlaskKafka.Auth.Grammar
import DjangoFlaskKafka.Auth.Lifetime
import DjangoFlaskKafka.Auth.Migrate
import DjangoFlaskKafka.Auth.Keys
