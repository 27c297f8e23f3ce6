/-
  Rotation — tokens that are redeemed once, each for its successor.

  A CHAIN begins with a token somebody is granted.  Redeeming a live token spends it and leaves a
  flight, from which the successor is minted later, or never.  Revoking an owner spends all tokens
  the owner has.  The ledger keeps, besides the tokens and the flights, the history these words are
  about: who began which chain, which chain a token belongs to, how many chains had begun at each
  revocation, and what has been redeemed.

  1. `Move` — what can happen to a ledger.
  2. `Sound` — **rotation never forks a chain**: of each chain at most one token is live or in
     flight, and no token is redeemed twice.  Every move keeps it.
  3. `Ended` — after a revocation no token of a chain begun before it is live.  Not every move keeps
     it: a flight that was in the air at the revocation still mints.  `ended_mint_iff` says exactly
     when it does.
-/
import DjangoFlaskKafka.Lib.Keyed
import Mathlib.Logic.Function.Basic
import Mathlib.Data.List.Perm.Subperm

namespace DjangoFlaskKafka.Rotation

universe u v

/-! ## Ledgers and moves -/

/-- A token, live until it is spent. -/
structure Token (τ : Type u) (υ : Type v) where
  id : τ
  owner : υ
  live : Bool

/-- The token is used up. -/
def Token.spend {τ : Type u} {υ : Type v} (t : Token τ υ) : Token τ υ := { t with live := false }

/-- A successor to be: the token it is redeemed for, and the number of revocations by then. -/
structure Flight (τ : Type u) (υ : Type v) where
  parent : τ
  owner : υ
  since : Nat

/-- The tokens, the flights, and the history. -/
structure Ledger (τ : Type u) (υ : Type v) where
  tokens : List (Token τ υ)
  flights : List (Flight τ υ)
  /-- the owner of each chain, oldest first -/
  chains : List υ
  /-- the chain a token belongs to -/
  chain : τ → Option Nat
  /-- whom a revocation was for, and how many chains had begun -/
  revocations : List (υ × Nat)
  redeemed : List τ

variable {τ : Type u} {υ : Type v}

/-- The ledger before anything. -/
def Ledger.empty : Ledger τ υ := ⟨[], [], [], fun _ => none, [], []⟩

variable [DecidableEq τ] [DecidableEq υ]

/-- What can happen to a ledger. -/
inductive Move (l : Ledger τ υ) : Ledger τ υ → Prop where
  /-- flights end, or nothing happens -/
  | drop (flights : List (Flight τ υ)) (h : flights.Subperm l.flights) :
    Move l { l with flights := flights }
  | redeem (t : Token τ υ) (ht : t ∈ l.tokens) (hlive : t.live) (flights : List (Flight τ υ))
    (h : flights.Perm (⟨t.id, t.owner, l.revocations.length⟩ :: l.flights)) :
    Move l { l with
      tokens := Keyed.modify Token.id t.id Token.spend l.tokens
      flights := flights
      redeemed := l.redeemed ++ [t.id] }
  | begin (id : τ) (hid : ∀ t ∈ l.tokens, t.id ≠ id) (owner : υ) :
    Move l { l with
      tokens := l.tokens ++ [⟨id, owner, true⟩]
      chains := l.chains ++ [owner]
      chain := Function.update l.chain id (some l.chains.length) }
  | mint (f : Flight τ υ) (flights : List (Flight τ υ)) (h : l.flights.Perm (f :: flights)) (id : τ)
    (hid : ∀ t ∈ l.tokens, t.id ≠ id) :
    Move l { l with
      tokens := l.tokens ++ [⟨id, f.owner, true⟩]
      flights := flights
      chain := Function.update l.chain id (l.chain f.parent) }
  | revoke (owner : υ) :
    Move l { l with
      tokens := l.tokens.map fun t => if t.owner = owner then t.spend else t
      revocations := l.revocations ++ [(owner, l.chains.length)] }

/-! ## Rotation never forks -/

/-- The live tokens of a chain, and its successors to be. -/
def Ledger.open (l : Ledger τ υ) (n : Nat) : Nat :=
  l.tokens.countP (fun t => t.live ∧ l.chain t.id = some n)
    + l.flights.countP fun f => l.chain f.parent = some n

/-- What every move keeps. -/
structure Sound (l : Ledger τ υ) : Prop where
  ids : (l.tokens.map Token.id).Nodup
  chained : ∀ t ∈ l.tokens, ∃ n < l.chains.length, l.chain t.id = some n
  parents : ∀ f ∈ l.flights, ∃ t ∈ l.tokens, t.id = f.parent
  counted : ∀ r ∈ l.revocations, r.2 ≤ l.chains.length
  since : ∀ f ∈ l.flights, f.since ≤ l.revocations.length
  /-- a chain whose token is redeemed has begun before the revocations to come -/
  later : ∀ f ∈ l.flights, ∀ n, l.chain f.parent = some n → ∀ r ∈ l.revocations.drop f.since, n < r.2
  spent : ∀ id ∈ l.redeemed, ∃ t ∈ l.tokens, t.id = id ∧ ¬ t.live
  once : l.redeemed.Nodup
  one : ∀ n, l.open n ≤ 1

omit [DecidableEq τ] [DecidableEq υ] in
/-- Nothing is wrong with nothing. -/
theorem sound_empty : Sound (Ledger.empty : Ledger τ υ) where
  ids := List.nodup_nil
  chained t ht := by cases ht
  parents f hf := by cases hf
  counted r hr := by cases hr
  since f hf := by cases hf
  later f hf := by cases hf
  spent id hid := by cases hid
  once := List.nodup_nil
  one n := Nat.zero_le 1

section Moves

variable {l l' : Ledger τ υ}

omit [DecidableEq τ] [DecidableEq υ] in
/-- Flights may end. -/
theorem Sound.drop (hl : Sound l) {flights : List (Flight τ υ)} (h : flights.Subperm l.flights) :
    Sound { l with flights := flights } where
  ids := hl.ids
  chained := hl.chained
  parents f hf := hl.parents f (h.subset hf)
  counted := hl.counted
  since f hf := hl.since f (h.subset hf)
  later f hf := hl.later f (h.subset hf)
  spent := hl.spent
  once := hl.once
  one n := by
    have hone := hl.one n
    have hle := h.countP_le fun f => decide (l.chain f.parent = some n)
    unfold Ledger.open at hone ⊢
    dsimp only
    omega

omit [DecidableEq υ] in
/-- A token in the ledger after one is spent, and the token it was. -/
theorem mem_spend {id : τ} {t : Token τ υ} (ht : t ∈ Keyed.modify Token.id id Token.spend l.tokens) :
    ∃ x ∈ l.tokens, x.id = t.id ∧ x.owner = t.owner ∧ (t.live → x.live ∧ x.id ≠ id) := by
  obtain ⟨x, hx, rfl⟩ := List.mem_map.mp ht
  refine ⟨x, hx, ?_⟩
  by_cases hid : x.id = id
  · rw [if_pos hid]
    exact ⟨rfl, rfl, fun h => by cases h⟩
  · rw [if_neg hid]
    exact ⟨rfl, rfl, fun h => ⟨h, hid⟩⟩

omit [DecidableEq υ] in
/-- Spending changes no id. -/
theorem ids_spend (id : τ) :
    (Keyed.modify Token.id id Token.spend l.tokens).map Token.id = l.tokens.map Token.id :=
  Keyed.map_key_modify Token.id id (by intro _ h; exact h) l.tokens

omit [DecidableEq υ] in
/-- The token that is spent makes room for the flight that takes off. -/
theorem Sound.redeem (hl : Sound l) {t : Token τ υ} (ht : t ∈ l.tokens) (hlive : t.live)
    {flights : List (Flight τ υ)}
    (h : flights.Perm (⟨t.id, t.owner, l.revocations.length⟩ :: l.flights)) :
    Sound { l with
      tokens := Keyed.modify Token.id t.id Token.spend l.tokens
      flights := flights
      redeemed := l.redeemed ++ [t.id] } := by
  have hmem : ∀ f ∈ flights, f = ⟨t.id, t.owner, l.revocations.length⟩ ∨ f ∈ l.flights :=
    fun f hf => List.mem_cons.mp (h.subset hf)
  have hkeep : ∀ x ∈ l.tokens, ∃ y ∈ Keyed.modify Token.id t.id Token.spend l.tokens, y.id = x.id := by
    intro x hx
    have hid : x.id ∈ (Keyed.modify Token.id t.id Token.spend l.tokens).map Token.id := by
      rw [ids_spend]
      exact List.mem_map_of_mem hx
    exact List.mem_map.mp hid
  refine ⟨?_, fun x hx => ?_, fun f hf => ?_, hl.counted, fun f hf => ?_, fun f hf n hn r hr => ?_,
    fun id hid => ?_, ?_, fun n => ?_⟩
  · rw [ids_spend]
    exact hl.ids
  · obtain ⟨y, hy, hid, -⟩ := mem_spend hx
    exact hid ▸ hl.chained y hy
  · rcases hmem f hf with rfl | hf
    · exact hkeep t ht
    · obtain ⟨x, hx, hid⟩ := hl.parents f hf
      exact hid ▸ hkeep x hx
  · rcases hmem f hf with rfl | hf
    · exact Nat.le_refl _
    · exact hl.since f hf
  · rcases hmem f hf with rfl | hf
    -- no revocation has come since this flight took off
    · rw [List.drop_length] at hr
      cases hr
    · exact hl.later f hf n hn r hr
  · rcases List.mem_append.mp hid with hid | hid
    · obtain ⟨x, hx, hxid, hspent⟩ := hl.spent id hid
      refine ⟨_, List.mem_map_of_mem hx, ?_⟩
      by_cases hxt : x.id = t.id
      · rw [if_pos hxt]
        exact ⟨hxid, by simp [Token.spend]⟩
      · rw [if_neg hxt]
        exact ⟨hxid, hspent⟩
    · obtain rfl := List.mem_singleton.mp hid
      refine ⟨_, List.mem_map_of_mem ht, ?_⟩
      rw [if_pos rfl]
      exact ⟨rfl, by simp [Token.spend]⟩
  · rw [List.nodup_append]
    refine ⟨hl.once, List.nodup_singleton _, fun a ha b hb => ?_⟩
    obtain rfl := List.mem_singleton.mp hb
    rintro rfl
    -- a live token has not been redeemed before
    obtain ⟨x, hx, hid, hspent⟩ := hl.spent t.id ha
    exact hspent (List.inj_on_of_nodup_map hl.ids hx ht hid ▸ hlive)
  · -- the token stops being live where the flight takes off
    have hone := hl.one n
    have hcount := Keyed.countP_modify hl.ids ht Token.spend
      fun t => decide (t.live ∧ l.chain t.id = some n)
    have hspent : decide ((Token.spend t).live ∧ l.chain (Token.spend t).id = some n) = false := by
      simp [Token.spend]
    rw [hspent, if_neg Bool.false_ne_true] at hcount
    have hflights := h.countP_eq fun f => decide (l.chain f.parent = some n)
    rw [List.countP_cons] at hflights
    unfold Ledger.open at hone ⊢
    dsimp only
    by_cases hn : l.chain t.id = some n
    · simp only [hlive, hn, and_self, decide_true, if_true] at hcount hflights
      omega
    · simp only [hn, and_false, decide_false, Bool.false_eq_true, if_false] at hcount hflights
      omega

omit [DecidableEq υ] in
/-- What belongs to a chain is as before, when a token with a new id is put into another. -/
theorem open_update (hl : Sound l) {id : τ} (hid : ∀ t ∈ l.tokens, t.id ≠ id) (owner : υ) (n : Nat)
    (c : Option Nat) :
    (l.tokens ++ [(⟨id, owner, true⟩ : Token τ υ)]).countP
        (fun t => t.live ∧ Function.update l.chain id c t.id = some n)
      = l.tokens.countP (fun t => t.live ∧ l.chain t.id = some n) + (if c = some n then 1 else 0) ∧
    l.flights.countP (fun f => Function.update l.chain id c f.parent = some n)
      = l.flights.countP fun f => l.chain f.parent = some n := by
  refine ⟨?_, List.countP_congr fun f hf => ?_⟩
  · rw [List.countP_append, List.countP_singleton]
    congr 1
    · refine List.countP_congr fun t ht => ?_
      rw [Function.update_of_ne (hid t ht)]
    · rw [Function.update_self]
      by_cases hc : c = some n <;> simp [hc]
  · obtain ⟨t, ht, hparent⟩ := hl.parents f hf
    rw [Function.update_of_ne (hparent ▸ hid t ht)]

omit [DecidableEq τ] [DecidableEq υ] in
/-- No chain that has not begun has anything open. -/
theorem open_chains (hl : Sound l) : l.open l.chains.length = 0 := by
  have hnot : ∀ t ∈ l.tokens, l.chain t.id ≠ some l.chains.length := by
    intro t ht h
    obtain ⟨n, hn, hchain⟩ := hl.chained t ht
    rw [hchain, Option.some.injEq] at h
    omega
  unfold Ledger.open
  rw [List.countP_eq_zero.mpr fun t ht => by simp [hnot t ht],
    List.countP_eq_zero.mpr fun f hf => ?_]
  obtain ⟨t, ht, hparent⟩ := hl.parents f hf
  simp [← hparent, hnot t ht]

omit [DecidableEq υ] in
/-- A chain begins with one live token. -/
theorem Sound.begin (hl : Sound l) {id : τ} (hid : ∀ t ∈ l.tokens, t.id ≠ id) (owner : υ) :
    Sound { l with
      tokens := l.tokens ++ [⟨id, owner, true⟩]
      chains := l.chains ++ [owner]
      chain := Function.update l.chain id (some l.chains.length) } := by
  have hlen : (l.chains ++ [owner]).length = l.chains.length + 1 := by simp
  have hparent : ∀ f ∈ l.flights, f.parent ≠ id := by
    intro f hf
    obtain ⟨t, ht, hparent⟩ := hl.parents f hf
    exact hparent ▸ hid t ht
  refine ⟨?_, fun t ht => ?_, fun f hf => ?_, fun r hr => ?_, hl.since, fun f hf n hn => ?_,
    fun x hx => ?_, hl.once, fun n => ?_⟩
  · rw [List.map_append, List.nodup_append]
    refine ⟨hl.ids, List.nodup_singleton _, fun a ha b hb => ?_⟩
    obtain ⟨t, ht, rfl⟩ := List.mem_map.mp ha
    obtain rfl := List.mem_singleton.mp hb
    exact hid t ht
  · dsimp only
    rw [hlen]
    rcases List.mem_append.mp ht with ht | ht
    · obtain ⟨n, hn, hchain⟩ := hl.chained t ht
      exact ⟨n, by omega, by rw [Function.update_of_ne (hid t ht), hchain]⟩
    · obtain rfl := List.mem_singleton.mp ht
      exact ⟨l.chains.length, by omega, by rw [Function.update_self]⟩
  · obtain ⟨t, ht, hparent⟩ := hl.parents f hf
    exact ⟨t, List.mem_append_left _ ht, hparent⟩
  · have hle := hl.counted r hr
    dsimp only
    omega
  · dsimp only at hn
    rw [Function.update_of_ne (hparent f hf)] at hn
    exact hl.later f hf n hn
  · obtain ⟨t, ht, hspent⟩ := hl.spent x hx
    exact ⟨t, List.mem_append_left _ ht, hspent⟩
  · -- the new token is all that its chain has open
    have hone := hl.one n
    obtain ⟨htokens, hflights⟩ := open_update hl hid owner n (some l.chains.length)
    have hfresh := open_chains hl
    unfold Ledger.open at hone hfresh ⊢
    dsimp only
    rw [htokens, hflights]
    by_cases hn : l.chains.length = n
    · subst hn
      simp only [if_true]
      omega
    · simp only [Option.some.injEq, hn, if_false]
      omega

omit [DecidableEq υ] in
/-- The flight that lands makes room for the token it mints. -/
theorem Sound.mint (hl : Sound l) {f : Flight τ υ} {flights : List (Flight τ υ)}
    (h : l.flights.Perm (f :: flights)) {id : τ} (hid : ∀ t ∈ l.tokens, t.id ≠ id) :
    Sound { l with
      tokens := l.tokens ++ [⟨id, f.owner, true⟩]
      flights := flights
      chain := Function.update l.chain id (l.chain f.parent) } := by
  have hmem : ∀ g ∈ flights, g ∈ l.flights := fun g hg => h.symm.subset (List.mem_cons_of_mem f hg)
  have hf : f ∈ l.flights := h.symm.subset List.mem_cons_self
  have hparent : ∀ g ∈ l.flights, g.parent ≠ id := by
    intro g hg
    obtain ⟨t, ht, hparent⟩ := hl.parents g hg
    exact hparent ▸ hid t ht
  refine ⟨?_, fun t ht => ?_, fun g hg => ?_, hl.counted, fun g hg => hl.since g (hmem g hg),
    fun g hg n hn => ?_, fun x hx => ?_, hl.once, fun n => ?_⟩
  · rw [List.map_append, List.nodup_append]
    refine ⟨hl.ids, List.nodup_singleton _, fun a ha b hb => ?_⟩
    obtain ⟨t, ht, rfl⟩ := List.mem_map.mp ha
    obtain rfl := List.mem_singleton.mp hb
    exact hid t ht
  · rcases List.mem_append.mp ht with ht | ht
    · obtain ⟨n, hn, hchain⟩ := hl.chained t ht
      exact ⟨n, hn, by dsimp only; rw [Function.update_of_ne (hid t ht), hchain]⟩
    · obtain rfl := List.mem_singleton.mp ht
      obtain ⟨t, ht, hparent⟩ := hl.parents f hf
      obtain ⟨n, hn, hchain⟩ := hl.chained t ht
      exact ⟨n, hn, by dsimp only; rw [Function.update_self, ← hparent, hchain]⟩
  · obtain ⟨t, ht, hparent⟩ := hl.parents g (hmem g hg)
    exact ⟨t, List.mem_append_left _ ht, hparent⟩
  · dsimp only at hn
    rw [Function.update_of_ne (hparent g (hmem g hg))] at hn
    exact hl.later g (hmem g hg) n hn
  · obtain ⟨t, ht, hspent⟩ := hl.spent x hx
    exact ⟨t, List.mem_append_left _ ht, hspent⟩
  · -- the flight lands where the token becomes live
    have hone := hl.one n
    obtain ⟨htokens, hflights⟩ := open_update hl hid f.owner n (l.chain f.parent)
    have hland := h.countP_eq fun g => decide
      (Function.update l.chain id (l.chain f.parent) g.parent = some n)
    rw [List.countP_cons, Function.update_of_ne (hparent f hf)] at hland
    unfold Ledger.open at hone ⊢
    dsimp only
    rw [htokens]
    by_cases hn : l.chain f.parent = some n
    · simp only [hn, decide_true, if_true] at hland hflights ⊢
      omega
    · simp only [hn, decide_false, Bool.false_eq_true, if_false] at hland ⊢
      omega

omit [DecidableEq τ] in
/-- A token in the ledger after a revocation, and the token it was. -/
theorem mem_revoke {owner : υ} {t : Token τ υ}
    (ht : t ∈ l.tokens.map fun t => if t.owner = owner then t.spend else t) :
    ∃ x ∈ l.tokens, x.id = t.id ∧ x.owner = t.owner ∧ (t.live → x.live ∧ x.owner ≠ owner) := by
  obtain ⟨x, hx, rfl⟩ := List.mem_map.mp ht
  refine ⟨x, hx, ?_⟩
  by_cases howner : x.owner = owner
  · rw [if_pos howner]
    exact ⟨rfl, rfl, fun h => by cases h⟩
  · rw [if_neg howner]
    exact ⟨rfl, rfl, fun h => ⟨h, howner⟩⟩

omit [DecidableEq τ] in
/-- A revocation only spends. -/
theorem Sound.revoke (hl : Sound l) (owner : υ) : Sound { l with
    tokens := l.tokens.map fun t => if t.owner = owner then t.spend else t
    revocations := l.revocations ++ [(owner, l.chains.length)] } := by
  have hid : ∀ t : Token τ υ, (if t.owner = owner then t.spend else t).id = t.id := by
    intro t
    split <;> rfl
  have hids : (l.tokens.map fun t => if t.owner = owner then t.spend else t).map Token.id
      = l.tokens.map Token.id := by
    rw [List.map_map]
    exact List.map_congr_left fun t _ => hid t
  have hkeep : ∀ t ∈ l.tokens, (if t.owner = owner then t.spend else t)
      ∈ l.tokens.map fun t => if t.owner = owner then t.spend else t :=
    fun t ht => List.mem_map_of_mem ht
  refine ⟨?_, fun t ht => ?_, fun f hf => ?_, fun r hr => ?_, fun f hf => ?_, fun f hf n hn r hr => ?_,
    fun x hx => ?_, hl.once, fun n => ?_⟩
  · rw [hids]
    exact hl.ids
  · obtain ⟨x, hx, hxt, -⟩ := mem_revoke ht
    exact hxt ▸ hl.chained x hx
  · obtain ⟨t, ht, hparent⟩ := hl.parents f hf
    exact ⟨_, hkeep t ht, (hid t).trans hparent⟩
  · rcases List.mem_append.mp hr with hr | hr
    · exact hl.counted r hr
    · obtain rfl := List.mem_singleton.mp hr
      exact Nat.le_refl _
  · have hle := hl.since f hf
    rw [List.length_append]
    omega
  · rw [List.drop_append] at hr
    rcases List.mem_append.mp hr with hr | hr
    · exact hl.later f hf n hn r hr
    · -- the chain of a flight has begun by now
      obtain rfl := List.mem_singleton.mp (List.mem_of_mem_drop hr)
      obtain ⟨t, ht, hparent⟩ := hl.parents f hf
      obtain ⟨m, hm, hchain⟩ := hl.chained t ht
      rw [hparent, show l.chain f.parent = some n from hn, Option.some.injEq] at hchain
      dsimp only
      omega
  · obtain ⟨t, ht, htx, hspent⟩ := hl.spent x hx
    refine ⟨_, hkeep t ht, (hid t).trans htx, ?_⟩
    split
    · simp [Token.spend]
    · exact hspent
  · -- nothing becomes live, and no flight takes off
    have hone := hl.one n
    have hle : (l.tokens.map fun t => if t.owner = owner then t.spend else t).countP
          (fun t => t.live ∧ l.chain t.id = some n)
        ≤ l.tokens.countP fun t => t.live ∧ l.chain t.id = some n := by
      rw [List.countP_map]
      refine List.countP_mono_left fun t _ h => ?_
      simp only [Function.comp_apply] at h
      split at h
      · simp [Token.spend] at h
      · exact h
    unfold Ledger.open at hone ⊢
    dsimp only
    omega

/-- **Every move keeps the ledger sound.** -/
theorem Sound.move (hl : Sound l) (h : Move l l') : Sound l' := by
  cases h with
  | drop flights h => exact hl.drop h
  | redeem t ht hlive flights h => exact hl.redeem ht hlive h
  | begin id hid owner => exact hl.begin hid owner
  | mint f flights h id hid => exact hl.mint h hid
  | revoke owner => exact hl.revoke owner

end Moves

/-! ## Revocations end chains -/

/-- No token of a chain that had begun when its owner was revoked is live. -/
def Ended (l : Ledger τ υ) : Prop :=
  ∀ r ∈ l.revocations, ∀ t ∈ l.tokens, t.owner = r.1 → t.live → ∀ n, l.chain t.id = some n → r.2 ≤ n

/-- No flight took off for a chain that had been ended by then. -/
def TookOff (l : Ledger τ υ) : Prop :=
  ∀ f ∈ l.flights, ∀ r ∈ l.revocations.take f.since, f.owner = r.1 →
    ∀ n, l.chain f.parent = some n → r.2 ≤ n

/-- The flight is none that a revocation of its owner has come between. -/
def Flight.Clear (l : Ledger τ υ) (f : Flight τ υ) : Prop :=
  ∀ r ∈ l.revocations.drop f.since, r.1 ≠ f.owner

section Revocations

variable {l l' : Ledger τ υ}

/-- From a ledger whose revocations have ended their chains, no flight takes off for one of them. -/
theorem tookOff_move (hl : Sound l) (hended : Ended l) (htook : TookOff l) (h : Move l l') :
    TookOff l' := by
  cases h with
  | drop flights h => exact fun f hf => htook f (h.subset hf)
  | redeem t ht hlive flights h =>
    intro f hf r hr howner n hn
    rcases List.mem_cons.mp (h.subset hf) with rfl | hf
    · rw [List.take_length] at hr
      exact hended r hr t ht howner hlive n hn
    · exact htook f hf r hr howner n hn
  | begin id hid owner =>
    intro f hf r hr howner n hn
    obtain ⟨t, ht, hparent⟩ := hl.parents f hf
    dsimp only at hn
    rw [Function.update_of_ne (hparent ▸ hid t ht)] at hn
    exact htook f hf r hr howner n hn
  | mint g flights h id hid =>
    intro f hf r hr howner n hn
    have hf' : f ∈ l.flights := h.symm.subset (List.mem_cons_of_mem g hf)
    obtain ⟨t, ht, hparent⟩ := hl.parents f hf'
    dsimp only at hn
    rw [Function.update_of_ne (hparent ▸ hid t ht)] at hn
    exact htook f hf' r hr howner n hn
  | revoke owner =>
    intro f hf r hr howner n hn
    dsimp only at hr
    rw [List.take_append_of_le_length (hl.since f hf)] at hr
    exact htook f hf r hr howner n hn

omit [DecidableEq υ] in
/-- **A landing keeps the chains ended exactly when no revocation of its owner has come between.** -/
theorem ended_mint_iff (hl : Sound l) (hended : Ended l) (htook : TookOff l) {f : Flight τ υ}
    {flights : List (Flight τ υ)} (h : l.flights.Perm (f :: flights)) {id : τ}
    (hid : ∀ t ∈ l.tokens, t.id ≠ id) :
    Ended { l with
      tokens := l.tokens ++ [⟨id, f.owner, true⟩]
      flights := flights
      chain := Function.update l.chain id (l.chain f.parent) } ↔ f.Clear l := by
  have hf : f ∈ l.flights := h.symm.subset List.mem_cons_self
  obtain ⟨t, ht, hparent⟩ := hl.parents f hf
  obtain ⟨n, -, hchain⟩ := hl.chained t ht
  rw [hparent] at hchain
  constructor
  · intro h' r hr howner
    have hle := h' r (List.mem_of_mem_drop hr) ⟨id, f.owner, true⟩ (by simp) howner.symm rfl n
      (by dsimp only; rw [Function.update_self, hchain])
    have hlt := hl.later f hf n hchain r hr
    omega
  · intro hclear r hr x hx howner hlive m hm
    dsimp only at hr hm
    rcases List.mem_append.mp hx with hx | hx
    · rw [Function.update_of_ne (hid x hx)] at hm
      exact hended r hr x hx howner hlive m hm
    · obtain rfl := List.mem_singleton.mp hx
      rw [Function.update_self] at hm
      rw [← List.take_append_drop f.since l.revocations] at hr
      rcases List.mem_append.mp hr with hr | hr
      · exact htook f hf r hr howner m hm
      · exact absurd howner.symm (hclear r hr)

omit [DecidableEq υ] in
/-- Redeeming makes nothing live. -/
theorem Ended.redeem (hended : Ended l) {id x : τ} {flights : List (Flight τ υ)} : Ended { l with
    tokens := Keyed.modify Token.id id Token.spend l.tokens
    flights := flights
    redeemed := l.redeemed ++ [x] } := by
  intro r hr t ht howner hlive n hn
  obtain ⟨y, hy, hid, hy', hback⟩ := mem_spend ht
  exact hended r hr y hy (hy'.trans howner) (hback hlive).1 n (by rw [hid]; exact hn)

omit [DecidableEq υ] in
/-- A chain that begins now is later than all revocations. -/
theorem Ended.begin (hl : Sound l) (hended : Ended l) {id : τ} (hid : ∀ t ∈ l.tokens, t.id ≠ id)
    (owner : υ) : Ended { l with
      tokens := l.tokens ++ [⟨id, owner, true⟩]
      chains := l.chains ++ [owner]
      chain := Function.update l.chain id (some l.chains.length) } := by
  intro r hr t ht howner hlive n hn
  dsimp only at hn
  rcases List.mem_append.mp ht with ht | ht
  · rw [Function.update_of_ne (hid t ht)] at hn
    exact hended r hr t ht howner hlive n hn
  · obtain rfl := List.mem_singleton.mp ht
    rw [Function.update_self] at hn
    have hle := hl.counted r hr
    rwa [Option.some.inj hn] at hle

omit [DecidableEq τ] in
/-- A revocation ends the chains of its owner. -/
theorem Ended.revoke (hended : Ended l) (owner : υ) : Ended { l with
    tokens := l.tokens.map fun t => if t.owner = owner then t.spend else t
    revocations := l.revocations ++ [(owner, l.chains.length)] } := by
  intro r hr t ht howner hlive n hn
  obtain ⟨x, hx, hid, hx', hback⟩ := mem_revoke ht
  rcases List.mem_append.mp hr with hr | hr
  · exact hended r hr x hx (hx'.trans howner) (hback hlive).1 n (by rw [hid]; exact hn)
  · obtain rfl := List.mem_singleton.mp hr
    exact absurd (hx'.trans howner) (hback hlive).2

end Revocations

end DjangoFlaskKafka.Rotation
