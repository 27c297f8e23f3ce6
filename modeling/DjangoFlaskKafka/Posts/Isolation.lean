/-
  Isolation — what concurrent requests to the posts service owe to one another.

  1. **Program** — the system is the one of `Lib.Optimistic`: each worker takes its requests in
     order, looks up and validates on the committed rows (`begin`), and later runs the transaction
     on the rows committed by then (`finish`).

  2. **Law** — `serial_of_apart`: if no request commits while another worker is between the two
     stages of a request that names one of its slugs, then at every moment the database, outbox and
     ids included, is what the finished requests make one after another in the order they finished.

  3. **The crux** — what `begin` finds depends on the rows with the slugs the request names
     (`begin_congr`), and what a transaction changes are rows with the slugs its request names,
     as long as its instance is still current (`finish_elsewhere`).
-/
import DjangoFlaskKafka.Posts.Views
import DjangoFlaskKafka.Lib.Optimistic

namespace DjangoFlaskKafka.Posts

open Python Postgres Optimistic Machine

/-! ## The program -/

/-- The two stages of a request. -/
def requests : Calls Db Arrival Call where
  read db a := (begin db.posts.1 a.request).toOption
  write db a call := some (finish a.now a.id db call).1

/-! ## The law -/

/-- The slug that the data asks for. -/
def slugIn : Json → Option String
  | .obj items => (items.lookup "slug").bind toInternalValue
  | _ => none

/-- The slugs a request names. -/
def Request.slugs : Request → List String
  | .create data => (slugIn data).toList
  | .update slug data => slug :: (slugIn data).toList
  | .destroy slug => [slug]

/-- The requests name no slug in common. -/
def Apart (a b : Arrival) : Prop := ∀ slug ∈ b.request.slugs, slug ∉ a.request.slugs

instance (a b : Arrival) : Decidable (Apart a b) :=
  inferInstanceAs (Decidable (∀ slug ∈ b.request.slugs, slug ∉ a.request.slugs))

/-! ## What a validation depends on -/

/-- The two tables have the same rows with that slug. -/
def AgreeOn (rows rows' : List Post) (slug : String) : Prop :=
  ∀ p : Post, p.slug.1 = slug → (p ∈ rows ↔ p ∈ rows')

/-- Tables that agree on a slug validate it alike. -/
theorem uniqueValidator_congr {rows rows' : List Post} {slug : String} (h : AgreeOn rows rows' slug)
    (existing : Option Post) : uniqueValidator existing rows slug = uniqueValidator existing rows' slug := by
  have hany : (rows.any fun p => p.slug.1 = slug ∧ existing.map Post.id ≠ some p.id)
      = rows'.any fun p => p.slug.1 = slug ∧ existing.map Post.id ≠ some p.id := by
    rw [Bool.eq_iff_iff, List.any_eq_true, List.any_eq_true]
    constructor
    · rintro ⟨p, hp, hq⟩
      exact ⟨p, (h p (of_decide_eq_true hq).1).mp hp, hq⟩
    · rintro ⟨p, hp, hq⟩
      exact ⟨p, (h p (of_decide_eq_true hq).1).mpr hp, hq⟩
  unfold uniqueValidator
  rw [hany]

theorem runValidation_congr (f : CharField) {v v' : String → List ErrorCode} {value : Option Json}
    (h : ∀ s ∈ value.bind toInternalValue, v s = v' s) :
    f.runValidation v value = f.runValidation v' value := by
  cases value with
  | none => rfl
  | some value =>
    cases value with
    | str s => simp only [CharField.runValidation, h (strip s) rfl, toInternalValue]
    | int n => simp only [CharField.runValidation, h (toString n) rfl, toInternalValue]
    | float repr => simp only [CharField.runValidation, h repr rfl, toInternalValue]
    | _ => rfl

/-- And so the whole representation. -/
theorem isValid_congr {rows rows' : List Post} {data : Json}
    (h : ∀ slug ∈ slugIn data, AgreeOn rows rows' slug) (existing : Option Post) :
    isValid existing rows data = isValid existing rows' data := by
  cases data with
  | obj items =>
    have hslug : slugField.runValidation (uniqueValidator existing rows) (items.lookup "slug")
        = slugField.runValidation (uniqueValidator existing rows') (items.lookup "slug") :=
      runValidation_congr slugField fun slug hs => uniqueValidator_congr (h slug hs) existing
    simp only [isValid, hslug]
  | _ => rfl

/-- A slug is looked up as what it is. -/
theorem find_slug_iff {rows : List Post} (hrows : (rows.map Post.slug).Nodup) (slug : String)
    (p : Post) : (rows.find? fun p => p.slug.1 = slug) = some p ↔ p ∈ rows ∧ p.slug.1 = slug := by
  constructor
  · intro hfound
    exact ⟨List.mem_of_find?_eq_some hfound, by simpa using List.find?_some hfound⟩
  · rintro ⟨hp, hslug⟩
    obtain ⟨q, hq⟩ := Option.isSome_iff_exists.mp
      (List.find?_isSome.mpr ⟨p, hp, decide_eq_true hslug⟩ :
        (rows.find? fun p => p.slug.1 = slug).isSome)
    have hqslug : q.slug.1 = slug := by simpa using List.find?_some hq
    have hqp : q = p := List.inj_on_of_nodup_map hrows (List.mem_of_find?_eq_some hq) hp
      (Subtype.ext (hqslug.trans hslug.symm))
    exact hqp ▸ hq

theorem getObjectOr404_of_mem {rows : List Post} (hrows : (rows.map Post.slug).Nodup) {post : Post}
    (hpost : post ∈ rows) : getObjectOr404 rows post.slug.1 = .ok post := by
  have hfound := (find_slug_iff hrows post.slug.1 post).mpr ⟨hpost, rfl⟩
  show (rows.find? fun p => p.slug.1 = post.slug.1).elim _ _ = _
  rw [hfound]
  rfl

/-- They show the same post under the slug. -/
theorem getObjectOr404_congr {rows rows' : List Post} (hrows : (rows.map Post.slug).Nodup)
    {slug : String} (h : AgreeOn rows rows' slug) (hrows' : (rows'.map Post.slug).Nodup) :
    getObjectOr404 rows slug = getObjectOr404 rows' slug := by
  have hsame : (rows.find? fun p => p.slug.1 = slug) = rows'.find? fun p => p.slug.1 = slug := by
    ext p
    rw [find_slug_iff hrows, find_slug_iff hrows']
    exact and_congr_left fun hslug => h p hslug
  show (rows.find? fun p => p.slug.1 = slug).elim _ _ = _
  rw [hsame]
  rfl

/-- **What `begin` finds depends on the rows with the slugs the request names.** -/
theorem begin_congr {rows rows' : PostTable} {request : Request}
    (h : ∀ slug ∈ request.slugs, AgreeOn rows.1 rows'.1 slug) :
    begin rows.1 request = begin rows'.1 request := by
  cases request with
  | create data =>
    have hvalid := isValid_congr (fun slug hs => h slug (Option.mem_toList.mpr hs)) none
    simp only [begin, validate, hvalid]
  | update slug data =>
    have hvalid : ∀ existing, isValid existing rows.1 data = isValid existing rows'.1 data :=
      isValid_congr fun slug hs => h slug (List.mem_cons_of_mem _ (Option.mem_toList.mpr hs))
    simp only [begin, validate, hvalid,
      getObjectOr404_congr rows.2.slugs (h slug List.mem_cons_self) rows'.2.slugs]
  | destroy slug =>
    simp only [begin, getObjectOr404_congr rows.2.slugs (h slug List.mem_cons_self) rows'.2.slugs]

/-! ## What a validation has found -/

/-- What a field has let through: a blank, where it takes one, or a value that has passed. -/
theorem runValidation_cases {f : CharField} {v : String → List ErrorCode} {value : Option Json}
    {text : Text f.max_length} (h : f.runValidation v value = .ok (some text)) :
    f.allow_blank = true ∧ text = blankText f.max_length ∨
      ∃ sent, value = some sent ∧ isBlank sent = false ∧ toInternalValue sent = some text.1 ∧
        v text.1 = [] ∧ (f.slug = true → text.1.toList.all isSlugChar = true) := by
  cases value with
  | none => cases hrequired : f.required <;> simp [CharField.runValidation, hrequired] at h
  | some sent =>
    cases hblank : isBlank sent with
    | true =>
      cases sent with
      | str s =>
        cases hallowed : f.allow_blank with
        | true =>
          simp only [CharField.runValidation, hblank, hallowed, if_true] at h
          exact .inl ⟨rfl, (Option.some.inj (Except.ok.inj h)).symm⟩
        | false => simp [CharField.runValidation, hblank, hallowed] at h
      | _ => cases hblank
    | false =>
      have hfound : ∀ s, toInternalValue sent = some s →
          f.runValidation v (some sent) = (if hv : v s = [] ∧ f.validators false s = [] then
            .ok (some ⟨s, (CharField.validators_eq_nil_iff.mp hv.2).1⟩)
          else .error (v s ++ f.validators false s)) := by
        intro s hs
        cases sent with
        | null => cases hs
        | lone t => cases hs
        | _ => simp only [CharField.runValidation, hblank, hs, Bool.false_eq_true, if_false]
      cases hs : toInternalValue sent with
      | none =>
        cases sent with
        | null => cases h
        | lone t => cases h
        | _ => simp [CharField.runValidation, hblank, hs] at h
      | some s =>
        rw [hfound s hs] at h
        split at h
        next hv =>
          obtain rfl := Option.some.inj (Except.ok.inj h)
          exact .inr ⟨sent, rfl, hblank, hs, hv.1, (CharField.validators_eq_nil_iff.mp hv.2).2⟩
        next => cases h

/-- The slug that has been validated is the one asked for, and no other row's. -/
theorem isValid_slug {existing : Option Post} {rows : List Post} {data : Json} {v : Validated}
    (h : isValid existing rows data = .ok v) :
    slugIn data = some v.slug.1 ∧ ∀ p ∈ rows, p.slug = v.slug → existing.map Post.id = some p.id := by
  cases data with
  | obj items =>
    unfold isValid at h
    dsimp only at h
    split at h
    next title image body slug htitle himage hbody hslug =>
      obtain rfl := Except.ok.inj h
      obtain ⟨hallowed, -⟩ | ⟨sent, hsent, -, hasked, hvalidators, -⟩ := runValidation_cases hslug
      · cases hallowed
      refine ⟨?_, fun p hp hpslug => ?_⟩
      · show (items.lookup "slug").bind toInternalValue = some slug.1
        rw [hsent]
        exact hasked
      by_contra hother
      have hany : (rows.any fun p => p.slug.1 = slug.1 ∧ existing.map Post.id ≠ some p.id) = true :=
        List.any_eq_true.mpr ⟨p, hp, decide_eq_true ⟨congrArg Subtype.val hpslug, hother⟩⟩
      unfold uniqueValidator at hvalidators
      rw [hany] at hvalidators
      simp at hvalidators
    next => cases h
  | _ => cases h

/-- How a request goes on to its transaction. -/
inductive Begun (rows : List Post) : Request → Call → Prop where
  | create {data : Json} {v : Validated} (hv : isValid none rows data = .ok v) :
    Begun rows (.create data) (.create v)
  | update {slug : String} {data : Json} {post : Post} {v : Validated}
    (hpost : getObjectOr404 rows slug = .ok post) (hv : isValid (some post) rows data = .ok v) :
    Begun rows (.update slug data) (.update post v)
  | destroy {slug : String} {post : Post} (hpost : getObjectOr404 rows slug = .ok post) :
    Begun rows (.destroy slug) (.destroy post)

/-- What a request has read before its transaction. -/
theorem begun_of_begin {rows : List Post} {request : Request} {call : Call}
    (h : begin rows request = .ok call) : Begun rows request call := by
  have hvalidate : ∀ {existing data v}, validate existing rows data = .ok v →
      isValid existing rows data = .ok v := by
    intro existing data v hv
    unfold validate at hv
    cases hvalid : isValid existing rows data with
    | error e => rw [hvalid] at hv; cases hv
    | ok v' => rw [hvalid] at hv; exact congrArg Except.ok (Except.ok.inj hv)
  cases request with
  | create data =>
    obtain ⟨v, hv, h⟩ := bind_eq_ok.mp h
    obtain rfl := Except.ok.inj h
    exact .create (hvalidate hv)
  | update slug data =>
    obtain ⟨post, hpost, h⟩ := bind_eq_ok.mp h
    obtain ⟨v, hv, h⟩ := bind_eq_ok.mp h
    obtain rfl := Except.ok.inj h
    exact .update hpost (hvalidate hv)
  | destroy slug =>
    obtain ⟨post, hpost, h⟩ := bind_eq_ok.mp h
    obtain rfl := Except.ok.inj h
    exact .destroy hpost

/-- What a request has found. -/
inductive Found (rows : List Post) : Request → Call → Prop where
  | create {data : Json} {v : Validated} (hasked : slugIn data = some v.slug.1)
    (hfree : ∀ p ∈ rows, p.slug ≠ v.slug) : Found rows (.create data) (.create v)
  | update {data : Json} {post : Post} {v : Validated} (hpost : post ∈ rows)
    (hasked : slugIn data = some v.slug.1) (hfree : ∀ p ∈ rows, p.slug = v.slug → p.id = post.id) :
    Found rows (.update post.slug.1 data) (.update post v)
  | destroy {post : Post} (hpost : post ∈ rows) : Found rows (.destroy post.slug.1) (.destroy post)

theorem begin_found {rows : List Post} {request : Request} {call : Call}
    (h : begin rows request = .ok call) : Found rows request call := by
  cases begun_of_begin h with
  | create hv =>
    obtain ⟨hasked, hfree⟩ := isValid_slug hv
    exact .create hasked fun p hp hslug => by cases hfree p hp hslug
  | update hpost hv =>
    obtain ⟨hmem, rfl⟩ := getObjectOr404_eq_ok hpost
    obtain ⟨hasked, hfree⟩ := isValid_slug hv
    exact .update hmem hasked fun p hp hslug => (Option.some.inj (hfree p hp hslug)).symm
  | destroy hpost =>
    obtain ⟨hmem, rfl⟩ := getObjectOr404_eq_ok hpost
    exact .destroy hmem

/-! ## What a transaction changes -/

/-- Saving a row that is there changes that row. -/
theorem mem_save_iff {rows : List Post} (hids : (rows.map Post.id).Nodup) {post : Post} (post' : Post)
    (hpost : post ∈ rows) (hid : post'.id = post.id) {p : Post} (hne : p ≠ post) (hne' : p ≠ post') :
    p ∈ save post' rows ↔ p ∈ rows := by
  have hthere : (Keyed.lookup Post.id post'.id rows).isSome :=
    Keyed.lookup_isSome_iff.mpr ⟨post, hpost, hid.symm⟩
  unfold save
  rw [if_pos hthere]
  constructor
  · intro hp
    obtain ⟨q, hq, rfl⟩ := List.mem_map.mp hp
    split at hne'
    · exact absurd rfl hne'
    next hkey =>
      rw [if_neg hkey]
      exact hq
  · intro hp
    refine List.mem_map.mpr ⟨p, hp, if_neg fun hkey => hne ?_⟩
    exact List.inj_on_of_nodup_map hids hp hpost (hkey.trans hid)

/-- **A transaction whose instance is current changes rows with the slugs of its request.** -/
theorem finish_elsewhere {db : Db} {request : Request} {call : Call}
    (h : begin db.posts.1 request = .ok call) (now : Int) (id : Uuid) {slug : String}
    (hslug : slug ∉ request.slugs) : AgreeOn db.posts.1 (finish now id db call).1.posts.1 slug := by
  intro p hp
  obtain ⟨-, ⟨hposts, -⟩ | ⟨hposts, -⟩⟩ := finish_cases now id db call
  · rw [hposts]
  · rw [hposts]
    cases begin_found h with
    | @create data v hasked hfree =>
      show p ∈ db.posts.1 ↔ p ∈ db.posts.1 ++ [v.create db.nextId]
      rw [List.mem_append, List.mem_singleton]
      refine (or_iff_left ?_).symm
      rintro rfl
      exact hslug (hp ▸ Option.mem_toList.mpr hasked)
    | @update data post v hpost hasked hfree =>
      refine (mem_save_iff db.posts.2.ids (v.update post) hpost rfl ?_ ?_).symm
      · rintro rfl
        exact hslug (hp ▸ List.mem_cons_self)
      · rintro rfl
        exact hslug (hp ▸ List.mem_cons_of_mem _ (Option.mem_toList.mpr hasked))
    | @destroy post hpost =>
      show p ∈ db.posts.1 ↔ p ∈ delete post db.posts.1
      refine ⟨fun hmem => List.mem_filter.mpr ⟨hmem, decide_eq_true fun hid => hslug ?_⟩,
        fun hmem => (List.mem_filter.mp hmem).1⟩
      obtain rfl := List.inj_on_of_nodup_map db.posts.2.ids hmem hpost hid
      exact hp ▸ List.mem_cons_self

/-! ## The law -/

/-- The two databases are as good as each other for a request. -/
def Same (a : Arrival) (seen db : Db) : Prop := begin seen.posts.1 a.request = begin db.posts.1 a.request

/-- A whole request at once. -/
theorem exec_requests (db : Db) (a : Arrival) : exec requests db a = (serve db a).1 := by
  unfold exec serve requests
  dsimp only
  cases begin db.posts.1 a.request with
  | error response => rfl
  | ok call => rfl

/-- Requests one after the other, as one run. -/
theorem serial_requests (db : Db) (arrivals : List Arrival) :
    serial requests db arrivals = serveAll db arrivals :=
  congrArg (fun f => arrivals.foldl f db) (funext fun db => funext fun a => exec_requests db a)

theorem begin_of_same {a : Arrival} {seen db : Db} {call : Call} (h : Same a seen db)
    (hread : requests.read seen a = some call) : begin db.posts.1 a.request = .ok call := by
  have hread : (begin seen.posts.1 a.request).toOption = some call := hread
  rw [h] at hread
  cases hbegin : begin db.posts.1 a.request with
  | error response => rw [hbegin] at hread; cases hread
  | ok call' => rw [hbegin] at hread; exact congrArg Except.ok (Option.some.inj hread)

variable {ι : Type} [DecidableEq ι]

/-- **Requests that overlap only with requests for other slugs are serial**: if no request commits
    while another worker is between the two stages of a request that names one of its slugs, then at
    every moment the posts, the outbox and the ids are those that the finished requests make one
    after another, in the order in which they finished. -/
theorem serial_of_apart (db : Db) (todo : ι → List Arrival) {acts : List (Action ι)}
    (h : Along (step requests) (Clear Apart) (start db todo) acts) :
    Throughout (step requests) (fun s => s.db = serveAll db s.done) (start db todo) acts := by
  have hrefl : ∀ (a : Arrival) (db : Db), Same a db db := fun _ _ => rfl
  have hcurrent : Along (step requests) (Current Same) (start db todo) acts := by
    refine current_of_clear hrefl ?_ db todo h
    intro a seen db call db' hsame hread hwrite b seen' hapart hb
    obtain rfl := Option.some.inj hwrite
    have hbegin := begin_of_same hsame hread
    refine hb.trans (begin_congr fun slug hslug => ?_)
    exact finish_elsewhere hbegin a.now a.id (hapart slug hslug)
  refine (serial_of_current ?_ db todo hcurrent).mono fun s hs => ?_
  · intro a seen db call db' hsame hread hwrite
    obtain rfl := Option.some.inj hwrite
    rw [exec_requests]
    unfold serve
    rw [begin_of_same hsame hread]
  · rw [← serial_requests]
    exact hs

/-- The fields of a post under that slug. -/
def fieldsAt (slug : String) : Json :=
  .obj [("title", .str "A"), ("body", .str "b"), ("slug", .str slug)]

/-- Two workers create a post each; then one renames its own while the other deletes its own. -/
def twoWorkers : Bool → List Arrival
  | true => [⟨0, sampleUuid 0, .create (fieldsAt "a")⟩, ⟨2, sampleUuid 2, .update "a" (fieldsAt "c")⟩]
  | false => [⟨1, sampleUuid 1, .create (fieldsAt "b")⟩, ⟨3, sampleUuid 3, .destroy "b"⟩]

/-- They get between each other's stages, and it makes no difference. -/
theorem serial_of_apart_twoWorkers :
    Throughout (step requests) (fun s => s.db = serveAll Db.empty s.done) (start Db.empty twoWorkers)
      [.read true, .read false, .commit false, .commit true, .read false, .read true, .commit true,
        .commit false] :=
  serial_of_apart Db.empty twoWorkers (by decide +kernel)

end DjangoFlaskKafka.Posts
