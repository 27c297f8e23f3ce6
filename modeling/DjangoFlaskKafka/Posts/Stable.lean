/-
  Stable — what `PostSerializer` has let through, it lets through again.

  1. **Program** — `isValid` and the two stages of a write request.

  2. **Law** — `isValid_data`: what is shown of a stable row of the table is valid data for that
     row, and the validated data are the row itself.  What a request has validated is stable
     (`begin_stable`), and so is every row that a transaction then writes (`write_stable`).

  3. **The crux** — a text that a `CharField` has let through is trimmed, and it is blank only where
     the field takes blanks; trimming it again changes nothing (`strip_strip`).  It has been through
     the validators, which have not changed their mind: the length and the NULs are in its type, the
     letters of a slug stay, and no other row has that slug.
-/
import DjangoFlaskKafka.Posts.Isolation

namespace DjangoFlaskKafka.Posts

open Python Postgres

/-! ## The law -/

/-- A number's text, as a number is printed: there is nothing to strip of it. -/
def Printed : Json → Prop
  | .float repr => strip repr = repr ∧ repr ≠ ""
  | _ => True

/-- The numbers among the data are printed. -/
def PrintedItems : Json → Prop
  | .obj items => ∀ item ∈ items, Printed item.2
  | _ => True

/-- The numbers a request sends are printed. -/
def Request.Printed : Request → Prop
  | .create data => PrintedItems data
  | .update _ data => PrintedItems data
  | .destroy _ => True

/-- A text the field lets through as it is. -/
structure Stable (f : CharField) (text : Text f.max_length) : Prop where
  trimmed : strip text.1 = text.1
  blank : text.1 = "" → f.allow_blank = true
  letters : f.slug = true → text.1.toList.all isSlugChar = true

/-- A row the serializer would let through as it is. -/
structure Post.Stable (post : Post) : Prop where
  title : Posts.Stable titleField post.title
  image : Posts.Stable imageField post.image
  body : Posts.Stable bodyField post.body
  slug : Posts.Stable slugField post.slug

/-- Validated data that make such a row. -/
structure Validated.Stable (data : Validated) : Prop where
  title : Posts.Stable titleField data.title
  image : ∀ image ∈ data.image, Posts.Stable imageField image
  body : Posts.Stable bodyField data.body
  slug : Posts.Stable slugField data.slug

/-- A call that has loaded and validated nothing else. -/
def Call.Stable : Call → Prop
  | .create data => data.Stable
  | .update post data => post.Stable ∧ data.Stable
  | .destroy post => post.Stable

/-! ## One field -/

theorem stable_blankText {f : CharField} (h : f.allow_blank = true) :
    Stable f (blankText f.max_length) := by
  refine ⟨?_, fun _ => h, fun _ => rfl⟩
  show strip "" = ""
  rfl

/-- What a number or a string becomes is trimmed, and blank only if it was. -/
theorem toInternalValue_trimmed {sent : Json} (hprinted : Printed sent) (hblank : isBlank sent = false)
    {s : String} (h : toInternalValue sent = some s) : strip s = s ∧ s ≠ "" := by
  cases sent with
  | str s' =>
    obtain rfl := Option.some.inj h
    exact ⟨strip_strip s', of_decide_eq_false hblank⟩
  | int n =>
    obtain rfl := Option.some.inj h
    exact strip_toString n
  | float repr =>
    obtain rfl := Option.some.inj h
    exact hprinted
  | _ => cases h

/-- **What a field has let through is stable.** -/
theorem stable_of_runValidation {f : CharField} {v : String → List ErrorCode} {value : Option Json}
    (hprinted : ∀ sent ∈ value, Printed sent) {text : Text f.max_length}
    (h : f.runValidation v value = .ok (some text)) : Stable f text := by
  obtain ⟨hallowed, rfl⟩ | ⟨sent, rfl, hblank, hs, -, hletters⟩ := runValidation_cases h
  · exact stable_blankText hallowed
  · obtain ⟨htrimmed, hne⟩ := toInternalValue_trimmed (hprinted sent rfl) hblank hs
    exact ⟨htrimmed, fun hempty => absurd hempty hne, hletters⟩

/-- **A stable text is let through as it is.** -/
theorem runValidation_stable {f : CharField} {v : String → List ErrorCode}
    {text : Text f.max_length} (h : Stable f text) (hv : text.1 ≠ "" → v text.1 = []) :
    f.runValidation v (some (.str text.1)) = .ok (some text) := by
  by_cases hempty : text.1 = ""
  · have hblank : isBlank (.str text.1) = true := decide_eq_true (h.trimmed.trans hempty)
    have htext : text = blankText f.max_length := Subtype.ext hempty
    simp only [CharField.runValidation, hblank, h.blank hempty, if_true]
    exact congrArg (fun text => Except.ok (some text)) htext.symm
  · have hblank : isBlank (.str text.1) = false :=
      decide_eq_false fun hs => hempty (h.trimmed.symm.trans hs)
    have hsent : toInternalValue (.str text.1) = some text.1 := congrArg some h.trimmed
    have hvalid : v text.1 = [] ∧ f.validators false text.1 = [] :=
      ⟨hv hempty, CharField.validators_eq_nil_iff.mpr ⟨text.2, h.letters⟩⟩
    simp only [CharField.runValidation, hblank, hsent, Bool.false_eq_true, if_false]
    exact dif_pos hvalid

/-! ## The serializer -/

/-- Validated data are stable. -/
theorem stable_of_isValid {existing : Option Post} {rows : List Post} {data : Json}
    (hprinted : PrintedItems data) {v : Validated} (h : isValid existing rows data = .ok v) :
    v.Stable := by
  cases data with
  | obj items =>
    have hsent : ∀ field, ∀ sent ∈ items.lookup field, Printed sent := by
      intro field sent hsent
      obtain ⟨before, after, rfl, -⟩ := List.lookup_eq_some_iff.mp (Option.mem_def.mp hsent)
      exact hprinted (field, sent) (List.mem_append_right before List.mem_cons_self)
    unfold isValid at h
    dsimp only at h
    split at h
    next title image body slug htitle himage hbody hslug =>
      obtain rfl := Except.ok.inj h
      exact {
        title := stable_of_runValidation (hsent "title") htitle
        image := fun image' himage' => by
          obtain rfl := Option.mem_def.mp himage'
          exact stable_of_runValidation (hsent "image") himage
        body := stable_of_runValidation (hsent "body") hbody
        slug := stable_of_runValidation (hsent "slug") hslug }
    next => cases h
  | _ => cases h

/-- The validated data that leave the row as it is. -/
def Post.validated (post : Post) : Validated where
  title := post.title
  image := some post.image
  body := post.body
  slug := post.slug

/-- **What is shown of a row is valid data for it**, and validates to what the row has. -/
theorem isValid_data {rows : List Post} (hrows : PostConstraints rows) {post : Post}
    (hpost : post ∈ rows) (hstable : post.Stable) :
    isValid (some post) rows post.data = .ok post.validated := by
  have hunique : (rows.any fun p => p.slug.1 = post.slug.1 ∧ (some post).map Post.id ≠ some p.id)
      = false := by
    rw [List.any_eq_false]
    intro p hp hother
    obtain ⟨hslug, hne⟩ := of_decide_eq_true hother
    obtain rfl := List.inj_on_of_nodup_map hrows.slugs hp hpost (Subtype.ext hslug)
    exact hne rfl
  have hslug : uniqueValidator (some post) rows post.slug.1 = [] := by
    unfold uniqueValidator
    rw [hunique, if_neg Bool.false_ne_true]
  have htitle := runValidation_stable (v := fun _ => []) hstable.title fun _ => rfl
  have himage := runValidation_stable (v := fun _ => []) hstable.image fun _ => rfl
  have hbody := runValidation_stable (v := fun _ => []) hstable.body fun _ => rfl
  have hslug := runValidation_stable hstable.slug fun _ => hslug
  unfold isValid Post.data
  dsimp only
  rw [show List.lookup "title" _ = some (Json.str post.title.1) from rfl,
    show List.lookup "image" _ = some (Json.str post.image.1) from rfl,
    show List.lookup "body" _ = some (Json.str post.body.1) from rfl,
    show List.lookup "slug" _ = some (Json.str post.slug.1) from rfl, htitle, himage, hbody, hslug]
  rfl

/-! ## The requests -/

/-- What a request on stable rows goes on with is stable. -/
theorem begin_stable {rows : List Post} (hrows : ∀ p ∈ rows, p.Stable) {request : Request}
    (hprinted : request.Printed) {call : Call} (h : begin rows request = .ok call) :
    call.Stable := by
  cases begun_of_begin h with
  | create hv => exact stable_of_isValid hprinted hv
  | update hpost hv =>
    exact ⟨hrows _ (getObjectOr404_eq_ok hpost).1, stable_of_isValid hprinted hv⟩
  | destroy hpost => exact hrows _ (getObjectOr404_eq_ok hpost).1

theorem Validated.Stable.create {data : Validated} (h : data.Stable) (id : Int) :
    (data.create id).Stable where
  title := h.title
  image := by
    show Posts.Stable imageField (data.image.getD (blankText 250))
    cases himage : data.image with
    | none => exact stable_blankText rfl
    | some image => exact h.image image himage
  body := h.body
  slug := h.slug

theorem Validated.Stable.update {data : Validated} (h : data.Stable) {post : Post}
    (hpost : post.Stable) : (data.update post).Stable where
  title := h.title
  image := by
    show Posts.Stable imageField (data.image.getD post.image)
    cases himage : data.image with
    | none => exact hpost.image
    | some image => exact h.image image himage
  body := h.body
  slug := h.slug

/-- **A transaction writes stable rows.** -/
theorem write_stable {nextId : Int} {rows : List Post} (hrows : ∀ p ∈ rows, p.Stable) {call : Call}
    (hcall : call.Stable) : ∀ p ∈ (call.write nextId rows).rows, p.Stable := by
  intro p hp
  cases call with
  | create data =>
    rcases List.mem_append.mp hp with hp | hp
    · exact hrows p hp
    · exact List.mem_singleton.mp hp ▸ Validated.Stable.create hcall nextId
  | update post data =>
    rcases mem_save hp with rfl | hp
    · exact hcall.2.update hcall.1
    · exact hrows p hp
  | destroy post => exact hrows p (List.mem_filter.mp hp).1

/-- Saving a row as it is changes nothing. -/
theorem save_self {rows : List Post} (hids : (rows.map Post.id).Nodup) {post : Post}
    (hpost : post ∈ rows) : save post rows = rows := by
  have hthere : (Keyed.lookup Post.id post.id rows).isSome :=
    Keyed.lookup_isSome_iff.mpr ⟨post, hpost, rfl⟩
  unfold save
  rw [if_pos hthere]
  refine (List.map_congr_left fun p hp => ?_).trans (List.map_id rows)
  split
  next hid => exact List.inj_on_of_nodup_map hids hpost hp hid.symm
  next => rfl

/-- **Updating a stable row with what is shown of it** is answered with the row, leaves the table
    as it is, and tells the row once more. -/
theorem serve_data {db : Db} {post : Post} (hpost : post ∈ db.posts.1) (hstable : post.Stable)
    (now : Int) {id : Uuid} (hfresh : ∀ e ∈ db.outbox.1, e.id ≠ id) :
    let served := serve db ⟨now, id, .update post.slug.1 post.data⟩
    served.2 = .ok post ∧ served.1.posts.1 = db.posts.1 ∧ served.1.nextId = db.nextId ∧
      served.1.outbox.1 = db.outbox.1 ++ [recordEvent now id .postUpdated post.slug post.data] := by
  intro served
  have hbegin : begin db.posts.1 (.update post.slug.1 post.data) = .ok (.update post post.validated) := by
    have hvalid : validate (some post) db.posts.1 post.data = .ok post.validated := by
      unfold validate
      rw [isValid_data db.posts.2 hpost hstable]
      rfl
    exact bind_eq_ok.mpr ⟨post, getObjectOr404_of_mem db.posts.2.slugs hpost,
      bind_eq_ok.mpr ⟨post.validated, hvalid, rfl⟩⟩
  have hserved : served = finish now id db (.update post post.validated) := by
    show serve db _ = _
    unfold serve
    rw [hbegin]
  have hrows : ((Call.update post post.validated).write db.nextId db.posts.1).rows = db.posts.1 :=
    save_self db.posts.2.ids hpost
  cases hcommit : db.commit now id ((Call.update post post.validated).write db.nextId db.posts.1) with
  | none =>
    rcases (commit_eq_none_iff ..).mp hcommit with hbad | ⟨e, he, hid⟩
    · rw [hrows] at hbad
      exact absurd db.posts.2 hbad
    · exact absurd hid (hfresh e he)
  | some db' =>
    have hfinish : finish now id db (.update post post.validated) = (db', .ok post) := by
      unfold finish
      dsimp only [Call.nextId]
      rw [hcommit]
      rfl
    obtain ⟨hposts, houtbox, hnext⟩ := commit_eq_some hcommit
    rw [hserved, hfinish]
    exact ⟨rfl, hposts.trans hrows, hnext, houtbox⟩

end DjangoFlaskKafka.Posts
