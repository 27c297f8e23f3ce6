/-
  Payloads — which revocations the consumer of the posts service survives.

  1. **Law** (`Settled`) — `_apply` returns; it has upserted the row that the payload says, if the
     payload says one, and otherwise changed nothing.  A payload says a row (`Says`) when it has the
     three fields, `expires_at` is a date-time, and the columns take the other two: what `CharField`
     makes of them is not NULL and can be stored.

  2. **Crux** — `_apply` catches what indexing and `parse_datetime` raise, and what a string with a
     surrogate does, and not what the database does.  `parse_datetime` returns `None` for a text in
     no date-time format, which is a NULL; a NULL and a value that the database refuses are errors of
     the database, so a payload with one kills the consumer (`Unwritable`).  Only a NULL key is no
     error at first: Django saves it as the empty text, which is the row of no token.  And a row may
     be in the way: one whose date cannot be loaded, or one with the key to which a longer one is cut
     (`Misplaced`).  Nothing else goes amiss (`apply_settled_iff`).
-/
import DjangoFlaskKafka.Lib.Raising
import DjangoFlaskKafka.Posts.Denylist

namespace DjangoFlaskKafka.Posts.Denylist

open Python Postgres Raising

variable (L : Libs)

/-! ## Law -/

/-- A column of 64 characters stores this text of the value. -/
def Holds (j : Json) (text : String) : Prop :=
  ∃ s, bindText L j = .ok (some s) ∧ stored 64 s = some text

/-- The payload says this row. -/
structure Says (payload : Json) (row : RevokedToken) : Prop where
  token_id : ∃ j, payload.item "token_id" = .ok j ∧ Holds L j row.token_id
  user_id : ∃ j, payload.item "user_id" = .ok j ∧ Holds L j row.user_id
  expires_at : ∃ j d, payload.item "expires_at" = .ok j ∧ parseDatetime L j = .ok (some d) ∧
    timestamp d = some row.expires_at

/-- A string with a surrogate. -/
def Lone (j : Json) : Prop := ∃ t, j = .lone t

/-- What is read of the payload. -/
structure Fields (payload : Json) (date : Option DateTime) (token user : Json) : Prop where
  expires_at : ∃ expires, payload.item "expires_at" = .ok expires ∧ parseDatetime L expires = .ok date
  token_id : payload.item "token_id" = .ok token
  user_id : payload.item "user_id" = .ok user

/-- The database refuses a value: the token for a NUL; or, where nothing has a surrogate, a date that
    is not given or that it does not have, or a text that its column does not take. -/
def Unwritable (payload : Json) : Prop :=
  ∃ date token user, Fields L payload date token user ∧
    (bindText L token = .error .databaseError ∨ ¬ Lone token ∧ ¬ Lone user ∧
      (date.bind timestamp = none ∨ token ≠ .null ∧ (∀ text, ¬ Holds L token text) ∨
        ∀ text, ¬ Holds L user text))

variable {L}

/-! ## Reading -/

/-- What is read are the fields. -/
theorem readRevocation_eq_ok_iff {payload : Json} {date : Option DateTime} {token user : Json} :
    readRevocation L payload = .ok (date, token, user) ↔ Fields L payload date token user := by
  unfold readRevocation
  constructor
  · intro h
    obtain ⟨expires, hexpires, h⟩ := bind_eq_ok.mp h
    obtain ⟨date', hdate, h⟩ := bind_eq_ok.mp h
    obtain ⟨token', htoken, h⟩ := bind_eq_ok.mp h
    obtain ⟨user', huser, h⟩ := bind_eq_ok.mp h
    cases h
    exact ⟨⟨expires, hexpires, hdate⟩, htoken, huser⟩
  · rintro ⟨⟨expires, hexpires, hdate⟩, htoken, huser⟩
    rw [hexpires, htoken, huser]
    show (parseDatetime L expires >>= _) = _
    rw [hdate]
    rfl

/-- The row is said in the fields. -/
theorem says_iff {payload : Json} {date : Option DateTime} {token user : Json}
    (h : Fields L payload date token user) {row : RevokedToken} :
    Says L payload row ↔ Holds L token row.token_id ∧ Holds L user row.user_id ∧
      date.bind timestamp = some row.expires_at := by
  obtain ⟨⟨expires, hexpires, hdate⟩, htoken, huser⟩ := h
  constructor
  · rintro ⟨⟨token', htoken', hholds⟩, ⟨user', huser', hholds'⟩, expires', d, hexpires', hdate', ht⟩
    obtain rfl := Except.ok.inj (htoken.symm.trans htoken')
    obtain rfl := Except.ok.inj (huser.symm.trans huser')
    obtain rfl := Except.ok.inj (hexpires.symm.trans hexpires')
    obtain rfl := Except.ok.inj (hdate.symm.trans hdate')
    exact ⟨hholds, hholds', ht⟩
  · rintro ⟨hholds, hholds', ht⟩
    obtain ⟨d, rfl, ht⟩ := Option.bind_eq_some_iff.mp ht
    exact ⟨⟨token, htoken, hholds⟩, ⟨user, huser, hholds'⟩, expires, d, hexpires, hdate, ht⟩

/-- What says a row can be read. -/
theorem Says.fields {payload : Json} {row : RevokedToken} (h : Says L payload row) :
    ∃ date token user, Fields L payload date token user := by
  obtain ⟨⟨token, htoken, -⟩, ⟨user, huser, -⟩, expires, d, hexpires, hdate, -⟩ := h
  exact ⟨some d, token, user, ⟨expires, hexpires, hdate⟩, htoken, huser⟩

/-- A payload is read in one way. -/
theorem Fields.unique {payload : Json} {date date' : Option DateTime} {token token' user user' : Json}
    (h : Fields L payload date token user) (h' : Fields L payload date' token' user') :
    date = date' ∧ token = token' ∧ user = user' := by
  have hread := (readRevocation_eq_ok_iff.mpr h).symm.trans (readRevocation_eq_ok_iff.mpr h')
  cases hread
  exact ⟨rfl, rfl, rfl⟩

/-! ## Values in a statement -/

/-- Either a value is sent, or it has a surrogate, or the driver refuses it. -/
theorem bindText_cases (j : Json) : (∃ s, bindText L j = .ok s) ∨
    bindText L j = .error .valueError ∧ Lone j ∨ bindText L j = .error .databaseError ∧ ¬ Lone j := by
  have hquote : ∀ s, (∃ x, quote s = .ok x) ∨ quote s = .error .databaseError := by
    intro s
    unfold quote
    split
    · exact .inr rfl
    · exact .inl ⟨_, rfl⟩
  cases j with
  | null => exact .inl ⟨none, rfl⟩
  | lone t => exact .inr (.inl ⟨rfl, t, rfl⟩)
  | str s =>
    rcases hquote s with h | h
    · exact .inl h
    · exact .inr (.inr ⟨h, by rintro ⟨t, ht⟩; cases ht⟩)
  | _ =>
    rcases hquote (L.str _) with h | h
    · exact .inl h
    · exact .inr (.inr ⟨h, by rintro ⟨t, ht⟩; cases ht⟩)

/-- A value without a surrogate is refused by the driver or sent. -/
theorem bindText_raises {j : Json} (h : ¬ Lone j) : Raises (· = .databaseError) (bindText L j) := by
  intro e he
  rcases bindText_cases (L := L) j with ⟨s, hs⟩ | ⟨-, hlone⟩ | ⟨herror, -⟩
  · cases hs.symm.trans he
  · exact absurd hlone h
  · exact (Except.error.inj (herror.symm.trans he)).symm

/-- Only `None` is NULL. -/
theorem bindText_eq_null_iff {j : Json} : bindText L j = .ok none ↔ j = .null := by
  have hquote : ∀ s, quote s ≠ .ok none := by
    intro s
    unfold quote
    split <;> simp
  cases j with
  | null => exact iff_of_true rfl rfl
  | lone t => exact iff_of_false (by intro h; cases h) (by simp)
  | str s => exact iff_of_false (hquote s) (by simp)
  | _ => exact iff_of_false (hquote _) (by simp)

/-- The column takes a text as far as it is stored. -/
theorem column_eq_ok_iff {s : Option String} {text : String} :
    column s = .ok text ↔ ∃ s', s = some s' ∧ stored 64 s' = some text := by
  unfold column
  cases hbound : s.bind (stored 64) with
  | none =>
    refine iff_of_false (by intro h; cases h) ?_
    rintro ⟨s', rfl, hstored⟩
    rw [Option.bind_some, hstored] at hbound
    cases hbound
  | some text' =>
    obtain ⟨s', rfl, hstored⟩ := Option.bind_eq_some_iff.mp hbound
    simp [hstored]

/-- The column takes a value by the text that is sent. -/
theorem holds_iff {j : Json} {s : Option String} (hj : bindText L j = .ok s) {text : String} :
    Holds L j text ↔ column s = .ok text := by
  rw [column_eq_ok_iff]
  unfold Holds
  rw [hj]
  simp

/-- A value is stored as one text. -/
theorem Holds.unique {j : Json} {text text' : String} (h : Holds L j text) (h' : Holds L j text') :
    text = text' := by
  obtain ⟨s, hs, hstored⟩ := h
  exact Except.ok.inj (((holds_iff hs).mp ⟨s, hs, hstored⟩).symm.trans ((holds_iff hs).mp h'))

/-- NULL is no text. -/
theorem not_holds_null (text : String) : ¬ Holds L .null text := by
  rintro ⟨s, hs, -⟩
  cases hs

/-- Nothing is stored of a string that cannot be encoded. -/
theorem not_holds_lone {j : Json} (h : Lone j) (text : String) : ¬ Holds L j text := by
  obtain ⟨t, rfl⟩ := h
  rintro ⟨s, hs, -⟩
  cases hs

/-! ## Writing -/

/-- Whatever the statements raise once they are sent is an error of the database. -/
theorem column_raises (s : Option String) : Raises (· = .databaseError) (column s) :=
  raises_elim (fun _ => rfl) fun text _ => raises_ok text

theorem saved_raises (rows : List RevokedToken) : Raises (· = .databaseError) (saved rows) :=
  raises_elim (fun _ => rfl) fun rows' _ => raises_ok rows'

/-- A row that cannot be loaded is an error of the database. -/
theorem get_raises (rows : List RevokedToken) (key : Option String) :
    Raises (· = .databaseError) (get rows key) := by
  unfold get
  split
  · exact raises_ok none
  next row _ =>
    split
    · exact raises_ok (some row)
    · exact raises_error rfl

/-- What is saved is the table that was to be. -/
theorem saved_eq_ok {rows : List RevokedToken} {rows' : RevokedTable} (h : saved rows = .ok rows') :
    rows'.1 = rows := by
  unfold saved at h
  cases hchecked : checked RevokedConstraints rows with
  | none =>
    rw [hchecked] at h
    cases h
  | some rows'' =>
    rw [hchecked] at h
    obtain rfl := Except.ok.inj h
    exact checked_eq_some hchecked

/-- **What has been saved**: the row of the texts in the columns, under the empty text for NULL; and
    if its key is not the token itself, as a new row. -/
theorem updateOrCreate_eq_ok {rows rows' : RevokedTable} {token user : Json} {date : Option Int}
    (h : updateOrCreate L rows token user date = .ok rows') :
    ∃ row, (token = .null ∧ row.token_id = "" ∨ Holds L token row.token_id) ∧
      Holds L user row.user_id ∧ date = some row.expires_at ∧ rows'.1 = upsert row rows.1 ∧
      (bindText L token = .ok (some row.token_id) ∨ rows'.1 = rows.1 ++ [row]) := by
  obtain ⟨key, hkey, h⟩ := bind_eq_ok.mp h
  obtain ⟨found, hfound, h⟩ := bind_eq_ok.mp h
  obtain ⟨userText, huser, h⟩ := bind_eq_ok.mp h
  obtain ⟨user_id, huserId, h⟩ := bind_eq_ok.mp h
  obtain ⟨expires_at, hdate, h⟩ := bind_eq_ok.mp h
  have hdate : date = some expires_at := by
    cases date with
    | none => cases hdate
    | some date => exact congrArg some (Except.ok.inj hdate)
  have hfound := get_eq_ok hfound
  cases found with
  | some found =>
    obtain ⟨k, rfl, hlookup⟩ := Option.bind_eq_some_iff.mp hfound.symm
    obtain rfl := Keyed.lookup_key hlookup
    have hfits := (rows.2.2 found (Keyed.lookup_mem hlookup)).1
    refine ⟨⟨found.token_id, user_id, expires_at⟩, .inr ⟨_, hkey, stored_of_varchar hfits⟩,
      (holds_iff huser).mpr huserId, hdate, ?_, .inl hkey⟩
    rw [saved_eq_ok h]
    exact (@upsert_of_found rows.1 ⟨found.token_id, user_id, expires_at⟩ found hlookup).symm
  | none =>
    obtain ⟨token_id, htokenId, h⟩ := bind_eq_ok.mp h
    obtain ⟨_, hsome, hstored⟩ := column_eq_ok_iff.mp htokenId
    obtain rfl := Option.some.inj hsome
    have hrows := saved_eq_ok h
    refine ⟨⟨token_id, user_id, expires_at⟩, ?_, (holds_iff huser).mpr huserId, hdate, ?_, .inr hrows⟩
    · cases key with
      | none => exact .inl ⟨bindText_eq_null_iff.mp hkey, (Option.some.inj hstored).symm⟩
      | some key => exact .inr ⟨key, hkey, hstored⟩
    · -- what has been added was not there
      have hnodup := rows'.2.1
      rw [hrows, List.map_append, List.nodup_append] at hnodup
      rw [hrows]
      refine (upsert_of_missing (Keyed.lookup_eq_none_iff.mpr fun x hx hid => ?_)).symm
      exact hnodup.2.2 _ (List.mem_map_of_mem hx) _ (List.mem_singleton_self _) hid

/-- Without a surrogate the statements get as far as the database. -/
theorem updateOrCreate_raises (rows : RevokedTable) {token user : Json} (htoken : ¬ Lone token)
    (huser : ¬ Lone user) (date : Option Int) :
    Raises (· = .databaseError) (updateOrCreate L rows token user date) := by
  refine (bindText_raises htoken).bind fun _ _ => (get_raises _ _).bind fun found _ =>
    (bindText_raises huser).bind fun _ _ => (column_raises _).bind fun _ _ =>
    Raises.bind (raises_elim (fun _ => rfl) fun t _ => raises_ok t) fun _ _ => ?_
  cases found with
  | some found => exact saved_raises _
  | none => exact (column_raises _).bind fun _ _ => saved_raises _

/-- Once the fields are read, it is up to the statements. -/
theorem apply_of_fields {payload : Json} {date : Option DateTime} {token user : Json}
    (h : Fields L payload date token user) (rows : RevokedTable) :
    apply L rows payload = match updateOrCreate L rows token user (date.bind timestamp) with
      | .ok rows => some rows
      | .error e => if caught e then some rows else none := by
  unfold apply applyPayload
  rw [readRevocation_eq_ok_iff.mpr h]
  rfl

/-- An error of the database leaves `_apply`. -/
theorem apply_eq_none {rows : RevokedTable} {payload : Json} {date : Option DateTime}
    {token user : Json} (h : Fields L payload date token user)
    (hraises : Raises (· = .databaseError) (updateOrCreate L rows token user (date.bind timestamp)))
    (hnot : ∀ rows', updateOrCreate L rows token user (date.bind timestamp) ≠ .ok rows') :
    apply L rows payload = none := by
  rw [apply_of_fields h]
  cases hwritten : updateOrCreate L rows token user (date.bind timestamp) with
  | ok rows' => exact absurd hwritten (hnot rows')
  | error e =>
    obtain rfl := hraises e hwritten
    rfl

/-- What `_apply` leaves: the table, or one with a row for no token, or with the one that the payload
    says. -/
theorem apply_cases {rows rows' : RevokedTable} {payload : Json}
    (h : apply L rows payload = some rows') :
    rows' = rows ∨ (∃ row, rows'.1 = rows.1 ++ [row]) ∨
      ∃ row, Says L payload row ∧ rows'.1 = upsert row rows.1 := by
  unfold apply at h
  cases hwritten : applyPayload L rows payload with
  | error e =>
    rw [hwritten] at h
    obtain ⟨-, h⟩ := Option.ite_none_right_eq_some.mp h
    exact .inl (Option.some.inj h).symm
  | ok rows'' =>
    rw [hwritten] at h
    obtain rfl := Option.some.inj h
    obtain ⟨⟨date, token, user⟩, hread, hwritten⟩ := bind_eq_ok.mp hwritten
    obtain ⟨row, htoken, huser, hdate, hrows, hplaced⟩ := updateOrCreate_eq_ok hwritten
    have hfields := readRevocation_eq_ok_iff.mp hread
    rcases htoken with ⟨rfl, -⟩ | htoken
    · exact .inr (.inl ⟨row, hplaced.resolve_left (by intro h; cases h)⟩)
    · exact .inr (.inr ⟨row, (says_iff hfields).mpr ⟨htoken, huser, hdate⟩, hrows⟩)

/-- A row that a payload says is upserted, if `_apply` returns. -/
theorem apply_upserts {rows rows' : RevokedTable} {payload : Json} {row : RevokedToken}
    (hstated : Says L payload row) (h : apply L rows payload = some rows') :
    rows'.1 = upsert row rows.1 := by
  obtain ⟨date, token, user, hfields⟩ := hstated.fields
  obtain ⟨htoken, huser, hdate⟩ := (says_iff hfields).mp hstated
  rw [apply_of_fields hfields] at h
  cases hwritten : updateOrCreate L rows token user (date.bind timestamp) with
  | error e =>
    -- nothing has a surrogate, so it is an error of the database
    rw [hwritten] at h
    obtain rfl := updateOrCreate_raises rows (fun hlone => not_holds_lone hlone _ htoken)
      (fun hlone => not_holds_lone hlone _ huser) (date.bind timestamp) e hwritten
    cases h
  | ok rows'' =>
    rw [hwritten] at h
    obtain rfl := Option.some.inj h
    obtain ⟨row', htoken', huser', hdate', hrows, -⟩ := updateOrCreate_eq_ok hwritten
    have htoken' : Holds L token row'.token_id := by
      rcases htoken' with ⟨rfl, -⟩ | htoken'
      · exact absurd htoken (not_holds_null _)
      · exact htoken'
    obtain rfl : row' = row := by
      cases row
      cases row'
      obtain rfl := htoken'.unique htoken
      obtain rfl := huser'.unique huser
      obtain rfl := Option.some.inj (hdate'.symm.trans hdate)
      rfl
    exact hrows

/-- What the database refuses is not applied to any table. -/
theorem Unwritable.apply_eq_none (rows : RevokedTable) {payload : Json}
    (h : Unwritable L payload) : apply L rows payload = none := by
  obtain ⟨date, token, user, hfields, hnul | ⟨htoken, huser, hamiss⟩⟩ := h
  · rw [apply_of_fields hfields]
    unfold updateOrCreate
    rw [hnul]
    rfl
  · refine Denylist.apply_eq_none hfields (updateOrCreate_raises rows htoken huser _) ?_
    intro rows' hwritten
    obtain ⟨row, htokenHolds, huserHolds, hdate, -⟩ := updateOrCreate_eq_ok hwritten
    rcases hamiss with hnone | ⟨hnull, hamiss⟩ | hamiss
    · rw [hnone] at hdate
      cases hdate
    · rcases htokenHolds with ⟨heq, -⟩ | htokenHolds
      · exact hnull heq
      · exact hamiss row.token_id htokenHolds
    · exact hamiss row.user_id huserHolds

end DjangoFlaskKafka.Posts.Denylist
