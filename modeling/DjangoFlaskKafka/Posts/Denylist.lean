/-
  The denylist of the posts service — `RevokedToken` of `services/posts/posts/models.py`,
  `jwtauth.py`, and `_apply` of `management/commands/consume_revocations.py`.

  `authenticate` is cut in two where others can get between: what it does up to `jwt.decode`
  (`decode`), and the lookup in the table (`checkDenylist`).

  What comes from Django, PyJWT and Python's `str` is a parameter (`Libs`), with what the code relies
  on: that `parse_datetime` reads RFC 3339.  `revoked_at` is written and never read, and is left out.
-/
import DjangoFlaskKafka.Auth.Store
import DjangoFlaskKafka.Rfc3339
import DjangoFlaskKafka.Lib.Expiry

namespace DjangoFlaskKafka.Posts.Denylist

open Python Postgres

/-! ## The table -/

/-- A row of `RevokedToken`. -/
structure RevokedToken where
  token_id : String
  user_id : String
  expires_at : Int
  deriving DecidableEq, Repr

/-- The constraints of the table. -/
def RevokedConstraints (rows : List RevokedToken) : Prop :=
  (rows.map RevokedToken.token_id).Nodup ∧ ∀ t ∈ rows, Varchar 64 t.token_id ∧ Varchar 64 t.user_id

instance : DecidablePred RevokedConstraints := fun _ => inferInstanceAs (Decidable (_ ∧ _))

theorem revokedConstraints_nil : RevokedConstraints [] := by decide

/-- The table, with its constraints. -/
abbrev RevokedTable := { rows : List RevokedToken // RevokedConstraints rows }

/-- `RevokedToken.is_revoked(token_id)`. -/
def isRevoked (rows : List RevokedToken) (token_id : String) : Bool :=
  token_id ≠ "" ∧ ∃ row ∈ rows, row.token_id = token_id

/-- The row is written in the place of the one with its key, or else added. -/
def upsert (row : RevokedToken) (rows : List RevokedToken) : List RevokedToken :=
  if (Keyed.lookup RevokedToken.token_id row.token_id rows).isSome then
    Keyed.modify RevokedToken.token_id row.token_id (fun _ => row) rows
  else rows ++ [row]

/-- `purge_expired_revocations()`. -/
def purgeExpiredRevocations (now : Int) (rows : RevokedTable) : RevokedTable where
  val := rows.1.filter fun row => ¬ row.expires_at ≤ now
  property := ⟨rows.2.1.sublist (List.filter_sublist.map _),
    fun row hrow => rows.2.2 row (List.mem_filter.mp hrow).1⟩

/-! ## The libraries -/

/-- The claims the code reads of a token, its dates in seconds. -/
structure TokenClaims where
  sub : String
  jti : String
  email : String
  exp : Int
  iat : Option Int
  nbf : Option Int
  deriving DecidableEq, Repr

/-- What `jwt.decode`, or fetching the key for it, raises. -/
inductive DecodeError where
  | pyJwtError (text : String)
  | exception
  deriving DecidableEq, Repr

structure Libs where
  /-- `str.lower` -/
  lower : List Char → List Char
  /-- the key of the token, then what `jwt.decode` checks before the dates: algorithm, signature and
      the required claims -/
  verify : String → Except DecodeError TokenClaims
  /-- what it checks after them: issuer, audience, and that subject and id are strings -/
  verifyRest : String → Except DecodeError Unit
  /-- `parse_datetime`, of a Unicode text -/
  parseDatetime : String → Except PyErr (Option DateTime)
  /-- the same, of another string -/
  parseDatetimeLone : LoneText → Except PyErr (Option DateTime)
  /-- `str`, of a value that is no string -/
  str : Json → String
  parseDatetime_rfc3339 : ∀ s d, Rfc3339.readDateTime s = some d → parseDatetime s = .ok (some d)

variable (L : Libs)

/-! ## The program -/

/-- The dates, in the order in which PyJWT checks them. -/
def TokenClaims.checkDates (now : Int) (claims : TokenClaims) : Except DecodeError TokenClaims :=
  if ∃ t ∈ claims.iat, now < t * Go.second then
    .error (.pyJwtError "The token is not yet valid (iat)")
  else if ∃ t ∈ claims.nbf, now < t * Go.second then
    .error (.pyJwtError "The token is not yet valid (nbf)")
  else if claims.exp * Go.second ≤ now then .error (.pyJwtError "Signature has expired")
  else .ok claims

/-- `jwt.decode`, and the key for it. -/
def jwtDecode (now : Int) (token : String) : Except DecodeError TokenClaims := do
  let claims ← (← L.verify token).checkDates now
  L.verifyRest token
  return claims

/-- `authenticate`, up to the lookup: `ok none` is a request without a bearer token, and an error is
    the detail of `AuthenticationFailed`. -/
def decode (now : Int) (header : String) : Except String (Option TokenClaims) :=
  if (L.lower header.toList).take 7 ≠ "bearer ".toList then .ok none
  else
    let token := strip (String.ofList (header.toList.drop 7))
    if token = "" then .error "bearer token is empty"
    else match jwtDecode L now token with
      | .error (.pyJwtError text) => .error ("token is not valid: " ++ text)
      | .error .exception => .error "cannot verify token right now"
      | .ok claims => .ok (some claims)

/-- `authenticate`, from the lookup. -/
def checkDenylist (rows : List RevokedToken) (claims : TokenClaims) : Except String TokenClaims :=
  if isRevoked rows claims.jti then .error "token has been revoked" else .ok claims

/-- A `datetime` as the database takes it: the offset is less than sixteen hours, and of whole
    seconds.  A naive one is in `TIME_ZONE`, which is UTC. -/
def timestamp (d : DateTime) : Option Int :=
  let offset := d.utcoffset.getD 0
  if -(16 * 60 * Go.minute) < offset ∧ offset < 16 * 60 * Go.minute ∧ offset % Go.second = 0 then
    some (d.wall - offset)
  else none

/-- `parse_datetime(value)`. -/
def parseDatetime : Json → Except PyErr (Option DateTime)
  | .str s => L.parseDatetime s
  | .lone t => L.parseDatetimeLone t
  | _ => .error .typeError

/-- What `_apply` reads of a payload. -/
def readRevocation (payload : Json) : Except PyErr (Option DateTime × Json × Json) := do
  let expires_at ← parseDatetime L (← payload.item "expires_at")
  return (expires_at, ← payload.item "token_id", ← payload.item "user_id")

/-- A text in a statement: psycopg refuses a NUL. -/
def quote (s : String) : Except PyErr (Option String) :=
  if nul ∈ s.toList then .error .databaseError else .ok (some s)

/-- A value in a statement; `none` is NULL.  `CharField.get_prep_value` keeps strings and `None` and
    takes the text of the rest; that a string with a surrogate cannot be encoded is no error of the
    database. -/
def bindText : Json → Except PyErr (Option String)
  | .null => .ok none
  | .str s => quote s
  | .lone _ => .error .valueError
  | value => quote (L.str value)

/-- A text in a column of 64 characters that is not nullable. -/
def column (s : Option String) : Except PyErr String :=
  (s.bind (stored 64)).elim (.error .databaseError) .ok

/-- The instants that a `datetime` can be loaded from: those of the years 1 to 9999. -/
def Loads (t : Int) : Prop :=
  1 ≤ (Go.civil (t / Go.second / 86400)).1 ∧ (Go.civil (t / Go.second / 86400)).1 ≤ 9999

instance : DecidablePred Loads := fun _ => inferInstanceAs (Decidable (_ ∧ _))

/-- `get(token_id=…)`, which loads the row.  None is found under NULL. -/
def get (rows : List RevokedToken) (key : Option String) : Except PyErr (Option RevokedToken) :=
  match key.bind fun key => Keyed.lookup RevokedToken.token_id key rows with
  | none => .ok none
  | some row => if Loads row.expires_at then .ok (some row) else .error .databaseError

/-- The table after a statement, if the constraints allow it. -/
def saved (rows : List RevokedToken) : Except PyErr RevokedTable :=
  (checked RevokedConstraints rows).elim (.error .databaseError) .ok

/-- `update_or_create(token_id=…, defaults={…})`.  A key that is not set is saved as the empty
    text. -/
def updateOrCreate (rows : RevokedTable) (token user : Json) (expires_at : Option Int) :
    Except PyErr RevokedTable := do
  let key ← bindText L token
  let found ← get rows.1 key
  let user_id ← column (← bindText L user)
  let expires_at ← expires_at.elim (.error .databaseError) .ok
  match found with
  | some row =>
    saved (Keyed.modify RevokedToken.token_id row.token_id
      (fun row => { row with user_id := user_id, expires_at := expires_at }) rows.1)
  | none =>
    let token_id ← column (some (key.getD ""))
    saved (rows.1 ++ [⟨token_id, user_id, expires_at⟩])

/-- `except (KeyError, TypeError, ValueError)`. -/
def caught : PyErr → Bool
  | .keyError | .typeError | .valueError => true
  | _ => false

/-- The `try` of `_apply`. -/
def applyPayload (rows : RevokedTable) (payload : Json) : Except PyErr RevokedTable := do
  let (expires_at, token, user) ← readRevocation L payload
  updateOrCreate L rows token user (expires_at.bind timestamp)

/-- `_apply(payload)`, which returns `True` with this table; `none` is an exception it lets through. -/
def apply (rows : RevokedTable) (payload : Json) : Option RevokedTable :=
  match applyPayload L rows payload with
  | .ok rows => some rows
  | .error e => if caught e then some rows else none

/-! ## Which tokens get past `jwt.decode` -/

/-- The token verifies, but for its dates. -/
def Verifies (token : String) (claims : TokenClaims) : Prop :=
  L.verify token = .ok claims ∧ L.verifyRest token = .ok ()

/-- The dates of the token admit it. -/
structure InDate (now : Int) (claims : TokenClaims) : Prop where
  iat : ∀ t ∈ claims.iat, t * Go.second ≤ now
  nbf : ∀ t ∈ claims.nbf, t * Go.second ≤ now
  exp : now < claims.exp * Go.second

/-- The header bears a token that verifies and is in date. -/
structure Presents (now : Int) (header : String) (claims : TokenClaims) : Prop where
  bearer : (L.lower header.toList).take 7 = "bearer ".toList
  verified : Verifies L (strip (String.ofList (header.toList.drop 7))) claims
  inDate : InDate now claims

section Tokens

variable {L} {now : Int} {claims : TokenClaims}

/-- A token has one set of claims. -/
theorem Verifies.unique {token : String} {claims' : TokenClaims} (h : Verifies L token claims)
    (h' : Verifies L token claims') : claims = claims' :=
  Except.ok.inj (h.1.symm.trans h'.1)

/-- The dates are checked for being in time. -/
theorem checkDates_eq_ok_iff {claims' : TokenClaims} :
    claims.checkDates now = .ok claims' ↔ claims = claims' ∧ InDate now claims := by
  unfold TokenClaims.checkDates
  split
  next hiat =>
    refine iff_of_false (by simp) fun h => ?_
    obtain ⟨t, ht, hlt⟩ := hiat
    have := h.2.iat t ht
    omega
  next hiat =>
    split
    next hnbf =>
      refine iff_of_false (by simp) fun h => ?_
      obtain ⟨t, ht, hlt⟩ := hnbf
      have := h.2.nbf t ht
      omega
    next hnbf =>
      split
      next hexp =>
        refine iff_of_false (by simp) fun h => ?_
        have := h.2.exp
        omega
      next hexp =>
        have hdates : InDate now claims :=
          ⟨fun t ht => not_lt.mp fun h => hiat ⟨t, ht, h⟩,
            fun t ht => not_lt.mp fun h => hnbf ⟨t, ht, h⟩, not_le.mp hexp⟩
        constructor
        · intro h
          exact ⟨Except.ok.inj h, hdates⟩
        · rintro ⟨rfl, -⟩
          rfl

/-- **What `jwt.decode` returns**: the claims of a token that verifies and is in date. -/
theorem jwtDecode_eq_ok_iff {token : String} :
    jwtDecode L now token = .ok claims ↔ Verifies L token claims ∧ InDate now claims := by
  unfold jwtDecode
  constructor
  · intro h
    obtain ⟨verified, hverify, h⟩ := bind_eq_ok.mp h
    obtain ⟨dated, hdated, h⟩ := bind_eq_ok.mp h
    obtain ⟨⟨⟩, hrest, h⟩ := bind_eq_ok.mp h
    obtain ⟨rfl, hinDate⟩ := checkDates_eq_ok_iff.mp hdated
    obtain rfl := Except.ok.inj h
    exact ⟨⟨hverify, hrest⟩, hinDate⟩
  · rintro ⟨⟨hverify, hrest⟩, hdates⟩
    rw [hverify, hrest]
    show (claims.checkDates now >>= _) = _
    rw [checkDates_eq_ok_iff.mpr ⟨rfl, hdates⟩]
    rfl

/-- What `decode` lets through has been verified, and is in date. -/
theorem presents_of_decode {header : String} (h : decode L now header = .ok (some claims)) :
    Presents L now header claims := by
  unfold decode at h
  split at h
  next => cases h
  next hbearer =>
    dsimp only at h
    split at h
    next => cases h
    next =>
      split at h
      next => cases h
      next => cases h
      next found hfound =>
        obtain rfl := Option.some.inj (Except.ok.inj h)
        obtain ⟨hverifies, hdates⟩ := jwtDecode_eq_ok_iff.mp hfound
        exact ⟨not_not.mp hbearer, hverifies, hdates⟩

end Tokens

/-! ## What it does with a revocation -/

/-- A token is revoked when it is listed. -/
theorem isRevoked_iff (rows : List RevokedToken) (id : Uuid) :
    isRevoked rows id.1 ↔ ∃ row ∈ rows, row.token_id = id.1 := by
  unfold isRevoked
  rw [decide_eq_true_iff]
  exact and_iff_right (uuid_ne_empty id)

/-- The keys of a table after an upsert. -/
theorem upsert_constraints {rows : List RevokedToken} (h : RevokedConstraints rows)
    (row : RevokedToken) (hrow : Varchar 64 row.token_id ∧ Varchar 64 row.user_id) :
    RevokedConstraints (upsert row rows) := by
  unfold upsert
  split
  · refine ⟨?_, ?_⟩
    · rw [Keyed.map_key_modify RevokedToken.token_id row.token_id (fun _ _ => rfl)]
      exact h.1
    · intro t ht
      obtain ⟨t', ht', rfl⟩ := List.mem_map.mp ht
      split
      · exact hrow
      · exact h.2 t' ht'
  next hnone =>
    have hnone := Keyed.lookup_eq_none_iff.mp (Option.not_isSome_iff_eq_none.mp hnone)
    refine ⟨?_, ?_⟩
    · rw [List.map_append, List.nodup_append]
      refine ⟨h.1, List.nodup_singleton _, ?_⟩
      intro a ha b hb
      obtain ⟨t, ht, rfl⟩ := List.mem_map.mp ha
      rw [List.mem_singleton.mp hb]
      exact hnone t ht
    · intro t ht
      rcases List.mem_append.mp ht with ht | ht
      · exact h.2 t ht
      · rw [List.mem_singleton.mp ht]
        exact hrow

/-- What is read of a revocation that auth has written. -/
theorem readRevocation_revocation (token user : Uuid) {expires : Int}
    (hexpires : Rfc3339.Writable expires) :
    readRevocation L (Auth.revocationPayload token.1 user expires)
      = .ok (some ⟨expires, some 0⟩, .str token.1, .str user.1) := by
  show (L.parseDatetime (Go.formatRFC3339 expires)).bind _ = _
  rw [L.parseDatetime_rfc3339 _ _ (Rfc3339.readDateTime_format hexpires)]
  rfl

theorem quote_of_varchar {n : Nat} {s : String} (h : Varchar n s) : quote s = .ok (some s) :=
  if_neg h.2

theorem column_of_varchar {s : String} (h : Varchar 64 s) : column (some s) = .ok s := by
  unfold column
  rw [Option.bind_some, stored_of_varchar h]
  rfl

/-- What is found is the row with the key. -/
theorem get_eq_ok {rows : List RevokedToken} {key : Option String} {found : Option RevokedToken}
    (h : get rows key = .ok found) :
    found = key.bind fun key => Keyed.lookup RevokedToken.token_id key rows := by
  unfold get at h
  split at h
  next hnone => exact (Except.ok.inj h).symm.trans hnone.symm
  next row hrow =>
    split at h
    · exact (Except.ok.inj h).symm.trans hrow.symm
    · cases h

/-- The row is found when its date can be loaded. -/
theorem get_of_loads {rows : List RevokedToken} {key : String}
    (h : ∀ row ∈ rows, row.token_id = key → Loads row.expires_at) :
    get rows (some key) = .ok (Keyed.lookup RevokedToken.token_id key rows) := by
  unfold get
  rw [Option.bind_some]
  split
  next hnone => rw [hnone]
  next row hrow =>
    rw [if_pos (h row (Keyed.lookup_mem hrow) (Keyed.lookup_key hrow)), hrow]

/-- A table within its constraints is saved. -/
theorem saved_of {rows : List RevokedToken} (h : RevokedConstraints rows) :
    saved rows = .ok ⟨rows, h⟩ := by
  unfold saved
  rw [checked_of h]
  rfl

/-- The row that is found is replaced. -/
theorem upsert_of_found {rows : List RevokedToken} {row found : RevokedToken}
    (h : Keyed.lookup RevokedToken.token_id row.token_id rows = some found) :
    upsert row rows = Keyed.modify RevokedToken.token_id found.token_id
      (fun x => { x with user_id := row.user_id, expires_at := row.expires_at }) rows := by
  unfold upsert
  rw [h, Option.isSome_some, if_pos rfl, Keyed.lookup_key h]
  refine List.map_congr_left fun x _ => ?_
  split
  next hx =>
    dsimp only
    rw [hx]
  · rfl

/-- A new row goes to the end. -/
theorem upsert_of_missing {rows : List RevokedToken} {row : RevokedToken}
    (h : Keyed.lookup RevokedToken.token_id row.token_id rows = none) :
    upsert row rows = rows ++ [row] := by
  unfold upsert
  rw [h]
  rfl

/-- A row of texts that fit is upserted, if the one in its place can be loaded. -/
theorem updateOrCreate_str (rows : RevokedTable) (row : RevokedToken)
    (htoken : Varchar 64 row.token_id) (huser : Varchar 64 row.user_id)
    (hloads : ∀ x ∈ rows.1, x.token_id = row.token_id → Loads x.expires_at) :
    ∃ rows', updateOrCreate L rows (.str row.token_id) (.str row.user_id) (some row.expires_at)
      = .ok rows' ∧ rows'.1 = upsert row rows.1 := by
  have hrow := upsert_constraints rows.2 row ⟨htoken, huser⟩
  refine ⟨⟨_, hrow⟩, ?_, rfl⟩
  rw [← saved_of hrow]
  show (quote row.token_id >>= _) = _
  rw [quote_of_varchar htoken]
  show (get rows.1 (some row.token_id) >>= _) = _
  rw [get_of_loads hloads]
  show (quote row.user_id >>= _) = _
  rw [quote_of_varchar huser]
  show (column (some row.user_id) >>= _) = _
  rw [column_of_varchar huser]
  cases hfound : Keyed.lookup RevokedToken.token_id row.token_id rows.1 with
  | some found =>
    rw [upsert_of_found hfound]
    rfl
  | none =>
    show (column (some row.token_id) >>= _) = _
    rw [column_of_varchar htoken, upsert_of_missing hfound]
    rfl

/-- **A revocation that auth has written is applied**: its row is upserted, on the instant it
    names. -/
theorem apply_revocation (rows : RevokedTable) (token user : Uuid) {expires : Int}
    (hexpires : Rfc3339.Writable expires)
    (hloads : ∀ row ∈ rows.1, row.token_id = token.1 → Loads row.expires_at) :
    ∃ rows', apply L rows (Auth.revocationPayload token.1 user expires) = some rows' ∧
      rows'.1 = upsert ⟨token.1, user.1, expires⟩ rows.1 := by
  obtain ⟨rows', hrows', heq⟩ := updateOrCreate_str L rows ⟨token.1, user.1, expires⟩
    (varchar_uuid token) (varchar_uuid user) hloads
  have happly : applyPayload L rows (Auth.revocationPayload token.1 user expires) = .ok rows' := by
    unfold applyPayload
    rw [readRevocation_revocation L token user hexpires]
    show updateOrCreate L rows (.str token.1) (.str user.1) (some (expires - 0)) = _
    rw [Int.sub_zero, hrows']
  refine ⟨rows', ?_, heq⟩
  unfold apply
  rw [happly]

/-! ## Revocations

  Each token has one expiry, `due` of its id, and every event that revokes it carries that. -/

/-- What a `token_revoked` event is about. -/
structure Revocation where
  token : Uuid
  user : Uuid
  deriving DecidableEq

variable (due : String → Rfc3339.Instant)

/-- The payload that `RevokeAccessToken` writes. -/
def Revocation.payload (r : Revocation) : Json :=
  Auth.revocationPayload r.token.1 r.user (due r.token.1).1

/-- The denylist holds the tokens told, up to those that have expired by now. -/
abbrev Lists (told : String → Prop) (now : Int) (rows : List RevokedToken) : Prop :=
  Expiry.Tracks RevokedToken.token_id RevokedToken.expires_at (fun k => (due k).1) told now rows

variable {due}

/-- A row of the new table is the new one or an old one. -/
theorem mem_upsert {row x : RevokedToken} {rows : List RevokedToken} (h : x ∈ upsert row rows) :
    x ∈ rows ∨ x = row := by
  unfold upsert at h
  split at h
  · obtain ⟨y, hy, rfl⟩ := List.mem_map.mp h
    split
    · exact .inr rfl
    · exact .inl hy
  · exact (List.mem_append.mp h).imp_right List.mem_singleton.mp

theorem mem_upsert_self (row : RevokedToken) (rows : List RevokedToken) : row ∈ upsert row rows := by
  unfold upsert
  split
  next hsome =>
    obtain ⟨x, hx, hkey⟩ := Keyed.lookup_isSome_iff.mp hsome
    exact List.mem_map.mpr ⟨x, hx, if_pos hkey⟩
  · exact List.mem_append_right _ (List.mem_singleton_self row)

theorem mem_upsert_of_mem (row : RevokedToken) {x : RevokedToken} {rows : List RevokedToken}
    (h : x ∈ rows) :
    x.token_id = row.token_id ∨ x ∈ upsert row rows := by
  by_cases hkey : x.token_id = row.token_id
  · exact .inl hkey
  · refine .inr ?_
    unfold upsert
    split
    · exact List.mem_map.mpr ⟨x, h, if_neg hkey⟩
    · exact List.mem_append_left _ h

/-- Which tokens a table lists, after an upsert. -/
theorem listed_upsert_iff {row : RevokedToken} {rows : List RevokedToken} {k : String} :
    (∃ x ∈ upsert row rows, x.token_id = k) ↔ row.token_id = k ∨ ∃ x ∈ rows, x.token_id = k := by
  constructor
  · rintro ⟨x, hx, rfl⟩
    rcases mem_upsert hx with hx | rfl
    · exact .inr ⟨x, hx, rfl⟩
    · exact .inl rfl
  · rintro (rfl | ⟨x, hx, rfl⟩)
    · exact ⟨row, mem_upsert_self row rows, rfl⟩
    · rcases mem_upsert_of_mem row hx with hkey | hx
      · exact ⟨row, mem_upsert_self row rows, hkey.symm⟩
      · exact ⟨x, hx, rfl⟩

theorem Lists.upsert {told : String → Prop} {now : Int} {rows : List RevokedToken}
    (h : Lists due told now rows) (r : Revocation) :
    Lists due (fun k => told k ∨ k = r.token.1) now
      (upsert ⟨r.token.1, r.user.1, (due r.token.1).1⟩ rows) := by
  refine h.tell (fun x hx => ?_)
    (fun x hx => mem_upsert_of_mem ⟨r.token.1, r.user.1, (due r.token.1).1⟩ hx)
    ⟨_, mem_upsert_self _ rows, rfl⟩
  rcases mem_upsert hx with hx | rfl
  · exact .inl hx
  · exact .inr ⟨rfl, rfl⟩

/-- In such a table every row can be loaded, so every revocation is applied. -/
theorem Lists.apply_payload {told : String → Prop} {now : Int} {rows : RevokedTable}
    (h : Lists due told now rows.1) (r : Revocation) :
    ∃ rows', apply L rows (r.payload due) = some rows' ∧
      rows'.1 = Denylist.upsert ⟨r.token.1, r.user.1, (due r.token.1).1⟩ rows.1 :=
  apply_revocation L rows r.token r.user (due r.token.1).2 fun row hrow _ =>
    h.dated row hrow ▸ (due row.token_id).2.2

/-! ## Libraries to run on -/

def tokenID : Uuid := sampleUuid 11

/-- Every token expires after a quarter of an hour. -/
def plainDue (_ : String) : Rfc3339.Instant := ⟨900 * Go.second, by decide⟩

/-- The claims of the one token. -/
def plainClaims : TokenClaims := ⟨"alice", tokenID.1, "a@b", 900, some 0, some 0⟩

/-- Libraries that know one token, and read RFC 3339 and nothing else. -/
def plainLibs : Libs where
  lower := List.map Char.toLower
  verify token := if token = "t" then .ok plainClaims else .error (.pyJwtError "Not enough segments")
  verifyRest _ := .ok ()
  parseDatetime s := .ok (Rfc3339.readDateTime s)
  parseDatetimeLone _ := .ok none
  str _ := ""
  parseDatetime_rfc3339 s d h := by rw [h]

end DjangoFlaskKafka.Posts.Denylist
