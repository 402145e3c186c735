import KFaceAuth.Lib.Bytes
import KFaceAuth.Policy.Basic
import Mathlib.Data.Nat.Digits.Lemmas
import Mathlib.Data.Nat.Log

/-!
# The policy file

The serialization of a policy (`AuthPolicy.toJson`) and its parser
(`AuthPolicy.parseJson`), on bytes. The parser reads the version-1 schema and
nothing else: unknown and repeated members are refused.

* `parseJson_toJson`: a policy that fits the size limit is read back from its
  serialization, provided it holds no entry the parser refuses (`WellFormed`);
* `wellFormed_of_parseJson`, `WellFormed.setMode`: every policy the programs
  come to hold is well-formed.
-/

namespace KFaceAuth

open Std

/-- `MAX_POLICY_BYTES`. -/
def maxPolicyBytes : ℕ := 64 * 1024

/-- The decimal text of a number. -/
def decimal (n : ℕ) : List UInt8 :=
  if n = 0 then [48] else (Nat.digits 10 n).reverse.map fun d => 48 + d.toUInt8

/-- `AuthTarget::key`. -/
def AuthTarget.key : AuthTarget → List UInt8
  | .sddm => ascii "sddm"
  | .plasmaLock => ascii "plasma-lock"

/-- `AuthTarget::parse`. -/
def AuthTarget.parse (text : List UInt8) : Except AuthPolicyError AuthTarget :=
  if text = ascii "sddm" then .ok .sddm
  else if text = ascii "plasma-lock" then .ok .plasmaLock
  else .error .invalid

/-- `AuthPolicyMode::as_str`. -/
def AuthPolicyMode.asStr : AuthPolicyMode → List UInt8
  | .off => ascii "off"
  | .onActivity => ascii "on-activity"
  | .manual => ascii "manual"

/-- `AuthPolicyMode::parse`. -/
def AuthPolicyMode.parse (text : List UInt8) : Except AuthPolicyError AuthPolicyMode :=
  if text = ascii "off" then .ok .off
  else if text = ascii "on-activity" then .ok .onActivity
  else if text = ascii "manual" then .ok .manual
  else .error .invalid

/-! ## Writing -/

namespace AuthPolicy

/-- A text between quotes. -/
def quoted (text : List UInt8) : List UInt8 := 34 :: (text ++ [34])

def targetMember (e : AuthTarget × AuthPolicyMode) : List UInt8 :=
  quoted e.1.key ++ 58 :: quoted e.2.asStr

/-- The members of an object, between braces and separated by commas. -/
def object (members : List (List UInt8)) : List UInt8 :=
  123 :: ([44].intercalate members ++ [125])

def userMember (e : UInt32 × Targets) : List UInt8 :=
  quoted (decimal e.1.toNat) ++ 58 :: object (e.2.toList.map targetMember)

/-- `AuthPolicy::to_json`. -/
def toJson (p : AuthPolicy) : List UInt8 :=
  123 :: ((ascii "\"version\":1,\"users\":" ++ object (p.users.toList.map userMember)) ++ [125, 10])

end AuthPolicy

/-! ## Reading -/

namespace PolicyParser

/-- `u8::is_ascii_whitespace`. -/
def isAsciiWhitespace (b : UInt8) : Bool := b = 9 || b = 10 || b = 12 || b = 13 || b = 32

/-- `u8::is_ascii_digit`. -/
def isAsciiDigit (b : UInt8) : Bool := 48 ≤ b && b ≤ 57

/-- `skip_whitespace`. The parser is at the head of the bytes it has left. -/
def skipWhitespace : List UInt8 → List UInt8
  | [] => []
  | b :: bs => if isAsciiWhitespace b then skipWhitespace bs else b :: bs

/-- `expect`. -/
def expect (b : UInt8) (bs : List UInt8) : Except AuthPolicyError (List UInt8) :=
  match skipWhitespace bs with
  | [] => .error .invalid
  | c :: bs => if c = b then .ok bs else .error .invalid

/-- The text up to the closing quote. The bytes are ASCII, so it is UTF-8. -/
def stringBody : List UInt8 → Except AuthPolicyError (List UInt8 × List UInt8)
  | [] => .error .invalid
  | b :: bs =>
    if b = 34 then .ok ([], bs)
    else if b = 92 ∨ b < 0x20 then .error .invalid
    else do
      let (text, bs) ← stringBody bs
      return (b :: text, bs)

/-- `string`. -/
def string (bs : List UInt8) : Except AuthPolicyError (List UInt8 × List UInt8) := do
  let bs ← expect 34 bs
  stringBody bs

/-- `str::parse::<u32>`: a sign may stand before the digits. -/
def parseU32 (text : List UInt8) : Option UInt32 :=
  let digits := match text with
    | 43 :: rest => rest
    | _ => text
  if digits.isEmpty || !digits.all isAsciiDigit then none
  else
    let n := digits.foldl (fun n d => 10 * n + (d - 48).toNat) 0
    if n < 2 ^ 32 then some (.ofNat n) else none

/-- `number`. -/
def number (bs : List UInt8) : Except AuthPolicyError (UInt32 × List UInt8) :=
  let bs := skipWhitespace bs
  let text := bs.takeWhile isAsciiDigit
  if text.isEmpty || (text.length > 1 && text.head? = some 48) then .error .invalid
  else
    match parseU32 text with
    | none => .error .invalid
    | some n => .ok (n, bs.dropWhile isAsciiDigit)

/-- The comma before every member but the first. -/
def separator (first : Bool) (bs : List UInt8) : Except AuthPolicyError (List UInt8) :=
  if first then .ok bs else expect 44 bs

section Members

variable {σ : Type} (item : σ → List UInt8 → Except AuthPolicyError (σ × List UInt8))

/-- The loop of `parse_policy`, `parse_users` and `parse_targets` over the
    members of an object, each read by `item`. Every member takes bytes, so that
    the number of bytes left bounds the number of rounds. -/
def members : ℕ → Bool → σ → List UInt8 → Except AuthPolicyError (σ × List UInt8)
  | 0, _, _, _ => .error .invalid
  | n + 1, first, acc, bs =>
    match skipWhitespace bs with
    | 125 :: bs => .ok (acc, bs)
    | bs => do
      let bs ← separator first bs
      let (acc, bs) ← item acc bs
      members n false acc bs

def parseObject (acc : σ) (bs : List UInt8) : Except AuthPolicyError (σ × List UInt8) := do
  let bs ← expect 123 bs
  members item (bs.length + 1) true acc bs

end Members

/-- One round of the loop of `parse_targets`. -/
def targetItem (targets : Targets) (bs : List UInt8) :
    Except AuthPolicyError (Targets × List UInt8) := do
  let (name, bs) ← string bs
  let target ← AuthTarget.parse name
  let bs ← expect 58 bs
  let (text, bs) ← string bs
  let mode ← AuthPolicyMode.parse text
  if mode = .off ∨ targets.contains target then .error .invalid
  else return (targets.insert target mode, bs)

/-- `parse_targets`. -/
def parseTargets (bs : List UInt8) : Except AuthPolicyError (Targets × List UInt8) :=
  parseObject targetItem ∅ bs

/-- One round of the loop of `parse_users`. -/
def userItem (users : ExtTreeMap UInt32 Targets) (bs : List UInt8) :
    Except AuthPolicyError (ExtTreeMap UInt32 Targets × List UInt8) := do
  let (text, bs) ← string bs
  match parseU32 text with
  | none => .error .invalid
  | some uid =>
    if uid = 0 ∨ decimal uid.toNat ≠ text then .error .invalid
    else do
      let bs ← expect 58 bs
      let (targets, bs) ← parseTargets bs
      if users.contains uid then .error .invalid else return (users.insert uid targets, bs)

/-- `parse_users`. -/
def parseUsers (bs : List UInt8) :
    Except AuthPolicyError (ExtTreeMap UInt32 Targets × List UInt8) :=
  parseObject userItem ∅ bs

/-- One round of the loop of `parse_policy`: whether the version was seen, and
    the users if they were. -/
def policyItem (seen : Bool × Option (ExtTreeMap UInt32 Targets)) (bs : List UInt8) :
    Except AuthPolicyError ((Bool × Option (ExtTreeMap UInt32 Targets)) × List UInt8) := do
  let (key, bs) ← string bs
  let bs ← expect 58 bs
  if key = ascii "version" ∧ seen.1 = false then
    let (n, bs) ← number bs
    if n ≠ 1 then .error .invalid else return ((true, seen.2), bs)
  else if key = ascii "users" ∧ seen.2.isNone then
    let (users, bs) ← parseUsers bs
    return ((seen.1, some users), bs)
  else .error .invalid

/-- `parse_policy`. -/
def parsePolicy (bs : List UInt8) : Except AuthPolicyError (AuthPolicy × List UInt8) := do
  let (seen, bs) ← parseObject policyItem (false, none) bs
  match seen with
  | (true, some users) => return (⟨users⟩, bs)
  | _ => .error .invalid

end PolicyParser

open PolicyParser in
/-- `AuthPolicy::parse_json`. -/
def AuthPolicy.parseJson (bs : List UInt8) : Except AuthPolicyError AuthPolicy :=
  if bs.length > maxPolicyBytes || !bs.all (· < 128) then .error .invalid
  else do
    let (policy, bs) ← parsePolicy bs
    if skipWhitespace bs = [] then return policy else .error .invalid

/-! ## Round trip -/

namespace PolicyParser

theorem skipWhitespace_cons {b : UInt8} (h : isAsciiWhitespace b = false) (bs : List UInt8) :
    skipWhitespace (b :: bs) = b :: bs := by
  simp [skipWhitespace, h]

theorem expect_cons {b : UInt8} (h : isAsciiWhitespace b = false) (bs : List UInt8) :
    expect b (b :: bs) = .ok bs := by
  simp [expect, skipWhitespace_cons h]

/-- The bytes a quoted text may hold. -/
def IsText (t : List UInt8) : Prop := ∀ b ∈ t, b ≠ 34 ∧ b ≠ 92 ∧ ¬ b < 0x20

instance (t : List UInt8) : Decidable (IsText t) := List.decidableBAll _ t

theorem stringBody_append {t : List UInt8} (h : IsText t) (rest : List UInt8) :
    stringBody (t ++ 34 :: rest) = .ok (t, rest) := by
  induction t with
  | nil => simp [stringBody]
  | cons b t ih =>
    obtain ⟨h₁, h₂, h₃⟩ := h b List.mem_cons_self
    have := ih fun c hc => h c (List.mem_cons_of_mem _ hc)
    simp [stringBody, h₁, h₂, h₃, this, bind, Except.bind, pure, Except.pure]

theorem string_quoted {t : List UInt8} (h : IsText t) (rest : List UInt8) :
    string (AuthPolicy.quoted t ++ rest) = .ok (t, rest) := by
  have : AuthPolicy.quoted t ++ rest = 34 :: (t ++ 34 :: rest) := by
    simp [AuthPolicy.quoted]
  rw [this, string, expect_cons (by decide)]
  exact stringBody_append h rest

/-! ### Numbers -/

theorem mem_decimal {n : ℕ} {b : UInt8} (h : b ∈ decimal n) : 48 ≤ b ∧ b ≤ 57 := by
  unfold decimal at h
  split_ifs at h
  · simp only [List.mem_singleton] at h
    subst h
    decide
  · obtain ⟨d, hd, rfl⟩ := List.mem_map.1 h
    have : d < 10 := Nat.digits_lt_base (by decide) (List.mem_reverse.1 hd)
    interval_cases d <;> decide

theorem decimal_ne_nil (n : ℕ) : decimal n ≠ [] := by
  unfold decimal
  split_ifs with h
  · simp
  · simp [Nat.digits_ne_nil_iff_ne_zero.2 h]

theorem isText_decimal (n : ℕ) : IsText (decimal n) := by
  intro b hb
  obtain ⟨h₁, h₂⟩ := mem_decimal hb
  refine ⟨?_, ?_, ?_⟩
  · rintro rfl
    exact absurd h₁ (by decide)
  · rintro rfl
    exact absurd h₂ (by decide)
  · simp only [UInt8.lt_iff_toNat_lt, UInt8.le_iff_toNat_le] at *
    exact fun h => absurd (h₁.trans h.le) (by decide)

theorem foldl_decimal (n : ℕ) :
    (decimal n).foldl (fun n d => 10 * n + (d - 48).toNat) 0 = n := by
  unfold decimal
  split_ifs with h
  · subst h
    rfl
  · rw [List.foldl_map, List.foldl_reverse]
    have : ∀ l : List ℕ, (∀ d ∈ l, d < 10) →
        l.foldr (fun d n => 10 * n + (48 + d.toUInt8 - 48).toNat) 0 = Nat.ofDigits 10 l := by
      intro l hl
      induction l with
      | nil => rfl
      | cons d l ih =>
        have hd := hl d List.mem_cons_self
        have h48 : (48 + d.toUInt8 - 48).toNat = d := by
          interval_cases d <;> rfl
        rw [List.foldr_cons, ih fun d hd => hl d (List.mem_cons_of_mem _ hd), h48, Nat.ofDigits_cons]
        omega
    rw [this _ fun d hd => Nat.digits_lt_base (by decide) hd, Nat.ofDigits_digits]

/-- The decimal text of a `u32` parses to it. -/
theorem parseU32_decimal (uid : UInt32) : parseU32 (decimal uid.toNat) = some uid := by
  have hdigits : (decimal uid.toNat).all isAsciiDigit := by
    rw [List.all_eq_true]
    intro b hb
    obtain ⟨h₁, h₂⟩ := mem_decimal hb
    simp [isAsciiDigit, h₁, h₂]
  rw [parseU32]
  · simp [hdigits, decimal_ne_nil, foldl_decimal, uid.toNat_lt]
  · -- there is no sign
    intro rest h
    have := mem_decimal (n := uid.toNat) (b := 43) (by simp [h])
    exact absurd this.1 (by decide)

/-! ### Objects -/

section Members

variable {σ X : Type} (item : σ → List UInt8 → Except AuthPolicyError (σ × List UInt8))
  (render : X → List UInt8)

/-- The members `xs`, as rendered, are read one after the other, from `acc` to
    `acc'`. A comma or the closing brace follows each. -/
inductive Reads : σ → List X → σ → Prop
  | nil (acc : σ) : Reads acc [] acc
  | cons {acc acc₁ acc' : σ} {x : X} {xs : List X}
      (h : ∀ b rest, b = 44 ∨ b = 125 →
        item acc (render x ++ b :: rest) = .ok (acc₁, b :: rest))
      (hs : Reads acc₁ xs acc') : Reads acc (x :: xs) acc'

variable {item render}

theorem members_intercalate (hr : ∀ x, ∃ bs, render x = 34 :: bs) {acc acc' : σ} {xs : List X}
    (h : Reads item render acc xs acc') (rest : List UInt8) :
    ∀ n, xs.length < n → ∀ first, first = true →
      members item n first acc ([44].intercalate (xs.map render) ++ 125 :: rest) =
        .ok (acc', rest) ∧
      (xs ≠ [] → members item n false acc (44 :: ([44].intercalate (xs.map render) ++ 125 :: rest)) =
        .ok (acc', rest)) := by
  induction h with
  | nil acc =>
    intro n hn first hf
    obtain ⟨n, rfl⟩ := Nat.exists_eq_add_of_lt hn
    exact ⟨by simp [members, skipWhitespace, isAsciiWhitespace], fun h => absurd rfl h⟩
  | @cons acc acc₁ acc' x xs h hs ih =>
    intro n hn first hf
    subst hf
    obtain ⟨m, rfl⟩ : ∃ m, n = m + 1 := ⟨n - 1, by omega⟩
    have hm : xs.length < m := by simpa using hn
    obtain ⟨bs, hbs⟩ := hr x
    -- what is left after the first member: the closing brace, or a comma and the others
    have hrest : ∃ b tail, (b = 44 ∨ b = 125) ∧
        [44].intercalate ((x :: xs).map render) ++ 125 :: rest = render x ++ b :: tail ∧
        members item m false acc₁ (b :: tail) = .ok (acc', rest) := by
      cases xs with
      | nil =>
        refine ⟨125, rest, .inr rfl, by simp, ?_⟩
        cases hs
        obtain ⟨k, rfl⟩ : ∃ k, m = k + 1 := ⟨m - 1, by omega⟩
        simp [members, skipWhitespace, isAsciiWhitespace]
      | cons y ys =>
        refine ⟨44, [44].intercalate ((y :: ys).map render) ++ 125 :: rest, .inl rfl, ?_, ?_⟩
        · simp [List.intercalate]
        · exact (ih m hm true rfl).2 (by simp)
    obtain ⟨b, tail, hb, htail, hread⟩ := hrest
    have hws : isAsciiWhitespace 34 = false := by decide
    have hitem : item acc (34 :: (bs ++ b :: tail)) = .ok (acc₁, b :: tail) := by
      simpa [hbs] using h b tail hb
    rw [htail, hbs]
    constructor
    · simp [members, separator, skipWhitespace_cons hws, bind, Except.bind, hitem, hread]
    · intro _
      have hws' : isAsciiWhitespace 44 = false := by decide
      simp [members, separator, skipWhitespace_cons hws', expect_cons hws', bind, Except.bind,
        hitem, hread]

theorem length_le_intercalate {render : X → List UInt8} (hr : ∀ x, ∃ bs, render x = 34 :: bs)
    (xs : List X) :
    xs.length ≤ ([44].intercalate (xs.map render)).length := by
  induction xs with
  | nil => simp
  | cons x xs ih =>
    obtain ⟨bs, hbs⟩ := hr x
    cases xs with
    | nil => simp [hbs]
    | cons y ys =>
      have : [44].intercalate ((x :: y :: ys).map render) =
          render x ++ 44 :: [44].intercalate ((y :: ys).map render) := by
        simp [List.intercalate]
      rw [this]
      simp only [List.length_append, List.length_cons, hbs] at *
      omega

/-- An object is read member by member. -/
theorem parseObject_object (hr : ∀ x, ∃ bs, render x = 34 :: bs) {acc acc' : σ} {xs : List X}
    (h : Reads item render acc xs acc') (rest : List UInt8) :
    parseObject item acc (AuthPolicy.object (xs.map render) ++ rest) = .ok (acc', rest) := by
  have : AuthPolicy.object (xs.map render) ++ rest =
      123 :: ([44].intercalate (xs.map render) ++ 125 :: rest) := by
    simp [AuthPolicy.object]
  rw [this, parseObject, expect_cons (by decide)]
  refine (members_intercalate hr h rest _ ?_ true rfl).1
  have := length_le_intercalate hr xs
  simp only [List.length_append, List.length_cons]
  omega

end Members

/-! ### Maps -/

section Maps

variable {K V : Type} [Ord K] [TransOrd K] [LawfulEqOrd K]

def insertAll (m : ExtTreeMap K V) (l : List (K × V)) : ExtTreeMap K V :=
  l.foldl (fun m e => m.insert e.1 e.2) m

theorem getElem?_insertAll (m : ExtTreeMap K V) {l : List (K × V)}
    (hl : l.Pairwise fun a b => a.1 ≠ b.1) (k : K) :
    (insertAll m l)[k]? = ((l.find? fun e => compare e.1 k = .eq).map Prod.snd).or m[k]? := by
  induction l generalizing m with
  | nil => rfl
  | cons e l ih =>
    rw [List.pairwise_cons] at hl
    rw [insertAll, List.foldl_cons]
    refine (ih _ hl.2).trans ?_
    rw [ExtTreeMap.getElem?_insert, List.find?_cons]
    by_cases hk : compare e.1 k = .eq
    · -- no later entry is at `k`
      have hnone : l.find? (fun e => compare e.1 k = .eq) = none := by
        rw [List.find?_eq_none]
        intro a ha hak
        have h₁ := LawfulEqOrd.eq_of_compare hk
        have h₂ := LawfulEqOrd.eq_of_compare (of_decide_eq_true hak)
        exact hl.1 a ha (h₁.trans h₂.symm)
      simp [hk, hnone]
    · simp [hk]

/-- A map is rebuilt from the list of its entries. -/
theorem insertAll_toList (m : ExtTreeMap K V) : insertAll ∅ m.toList = m := by
  refine ExtTreeMap.ext_getElem? fun k => ?_
  have hd : m.toList.Pairwise fun a b => a.1 ≠ b.1 := by
    refine ExtTreeMap.ordered_keys_toList.imp fun {a b} hab he => ?_
    rw [he, ReflOrd.compare_self] at hab
    cases hab
  rw [getElem?_insertAll _ hd]
  cases hf : m.toList.find? fun e => compare e.1 k = .eq with
  | none =>
    have : m[k]? = none := by
      rw [Option.eq_none_iff_forall_not_mem]
      intro v hv
      have := List.find?_eq_none.1 hf _ (ExtTreeMap.mem_toList_iff_getElem?_eq_some.2 hv)
      simp at this
    simp [this]
  | some e =>
    have hk : e.1 = k := LawfulEqOrd.eq_of_compare (by simpa using List.find?_some hf)
    have he := ExtTreeMap.mem_toList_iff_getElem?_eq_some.1 (List.mem_of_find?_eq_some hf)
    simp [← hk, he]

variable {item : ExtTreeMap K V → List UInt8 →
    Except AuthPolicyError (ExtTreeMap K V × List UInt8)} {render : K × V → List UInt8}

/-- A loop that inserts what it reads, and refuses a key it has, reads the
    entries of a map. -/
theorem reads_toList (m : ExtTreeMap K V)
    (h : ∀ acc e rest, e ∈ m.toList → acc.contains e.1 = false →
      item acc (render e ++ rest) = .ok (acc.insert e.1 e.2, rest)) :
    Reads item render ∅ m.toList m := by
  have key : ∀ (l : List (K × V)) (acc : ExtTreeMap K V), (∀ e ∈ l, e ∈ m.toList) →
      (l.Pairwise fun a b => compare a.1 b.1 = .lt) → (∀ e ∈ l, acc.contains e.1 = false) →
      Reads item render acc l (insertAll acc l) := by
    intro l
    induction l with
    | nil => exact fun acc _ _ _ => .nil acc
    | cons e l ih =>
      intro acc hm hl hacc
      rw [List.pairwise_cons] at hl
      refine .cons (fun b rest _ => h acc e (b :: rest) (hm e List.mem_cons_self)
        (hacc e List.mem_cons_self)) ?_
      refine ih _ (fun a ha => hm a (List.mem_cons_of_mem _ ha)) hl.2 fun a ha => ?_
      rw [ExtTreeMap.contains_insert, hacc a (List.mem_cons_of_mem _ ha), hl.1 a ha]
      rfl
  have := key m.toList ∅ (fun _ h => h) ExtTreeMap.ordered_keys_toList (by simp)
  rwa [insertAll_toList] at this

end Maps

end PolicyParser

namespace AuthPolicy

open PolicyParser

/-- What every policy holds: no entry for user zero, and no target stored as off. -/
structure WellFormed (p : AuthPolicy) : Prop where
  ne_zero : ∀ (uid : UInt32) (targets : Targets), p.users[uid]? = some targets → uid ≠ 0
  ne_off : ∀ (uid : UInt32) (targets : Targets), p.users[uid]? = some targets →
    ∀ target : AuthTarget, targets[target]? ≠ some .off

theorem isText_key (t : AuthTarget) : IsText t.key := by
  cases t <;> decide

theorem isText_asStr (m : AuthPolicyMode) : IsText m.asStr := by
  cases m <;> decide

theorem targetItem_targetMember {acc : Targets} {e : AuthTarget × AuthPolicyMode}
    (he : e.2 ≠ .off) (hacc : acc.contains e.1 = false) (rest : List UInt8) :
    targetItem acc (targetMember e ++ rest) = .ok (acc.insert e.1 e.2, rest) := by
  have hkey : AuthTarget.parse e.1.key = .ok e.1 := by
    cases e.1 <;> decide
  have hmode : AuthPolicyMode.parse e.2.asStr = .ok e.2 := by
    cases e.2 <;> decide
  have : targetMember e ++ rest = quoted e.1.key ++ 58 :: (quoted e.2.asStr ++ rest) := by
    simp [targetMember]
  rw [this, targetItem, string_quoted (isText_key _)]
  simp only [bind, Except.bind, hkey, expect_cons (b := 58) (by decide),
    string_quoted (isText_asStr _), hmode, he, hacc, Bool.false_eq_true, or_self, if_false]
  rfl

theorem parseTargets_object {targets : Targets} (h : ∀ t : AuthTarget, targets[t]? ≠ some .off)
    (rest : List UInt8) :
    parseTargets (object (targets.toList.map targetMember) ++ rest) = .ok (targets, rest) := by
  refine parseObject_object (fun e => ⟨_, rfl⟩) (reads_toList targets ?_) rest
  intro acc e rest he hacc
  refine targetItem_targetMember (fun hoff => h e.1 ?_) hacc rest
  rw [← hoff]
  exact ExtTreeMap.mem_toList_iff_getElem?_eq_some.1 he

theorem userItem_userMember {acc : ExtTreeMap UInt32 Targets} {e : UInt32 × Targets}
    (hz : e.1 ≠ 0) (he : ∀ t : AuthTarget, e.2[t]? ≠ some .off) (hacc : acc.contains e.1 = false)
    (rest : List UInt8) :
    userItem acc (userMember e ++ rest) = .ok (acc.insert e.1 e.2, rest) := by
  have : userMember e ++ rest = quoted (decimal e.1.toNat) ++
      58 :: (object (e.2.toList.map targetMember) ++ rest) := by
    simp [userMember]
  rw [this, userItem, string_quoted (isText_decimal _)]
  simp only [bind, Except.bind, parseU32_decimal, hz, ne_eq, not_true, or_self, if_false,
    expect_cons (b := 58) (by decide), parseTargets_object he, hacc, Bool.false_eq_true]
  rfl

theorem parseUsers_object {p : AuthPolicy} (h : p.WellFormed) (rest : List UInt8) :
    parseUsers (object (p.users.toList.map userMember) ++ rest) = .ok (p.users, rest) := by
  refine parseObject_object (fun e => ⟨_, rfl⟩) (reads_toList p.users ?_) rest
  intro acc e rest he hacc
  have hu := ExtTreeMap.mem_toList_iff_getElem?_eq_some.1 he
  exact userItem_userMember (h.ne_zero _ _ hu) (h.ne_off _ _ hu) hacc rest

/-- All bytes are ASCII. -/
def IsAscii (bs : List UInt8) : Prop := ∀ b ∈ bs, b < 128

instance (bs : List UInt8) : Decidable (IsAscii bs) := List.decidableBAll _ bs

theorem IsAscii.append {a b : List UInt8} (ha : IsAscii a) (hb : IsAscii b) : IsAscii (a ++ b) :=
  fun c hc => (List.mem_append.1 hc).elim (ha c) (hb c)

theorem IsAscii.cons {a : UInt8} {b : List UInt8} (hb : IsAscii b) (ha : a < 128) :
    IsAscii (a :: b) := by
  intro c hc
  rcases List.mem_cons.1 hc with rfl | hc
  · exact ha
  · exact hb c hc

theorem IsAscii.quoted {t : List UInt8} (h : IsAscii t) : IsAscii (quoted t) :=
  (h.append (by simp [IsAscii])).cons (by decide)

theorem IsAscii.object {X : Type} {render : X → List UInt8} (h : ∀ x, IsAscii (render x))
    {xs : List X} : IsAscii (object (xs.map render)) := by
  refine IsAscii.cons (IsAscii.append ?_ (by simp [IsAscii])) (by decide)
  induction xs with
  | nil => simp [IsAscii]
  | cons x xs ih =>
    cases xs with
    | nil => simpa using h x
    | cons y ys =>
      have : [44].intercalate ((x :: y :: ys).map render) =
          render x ++ 44 :: [44].intercalate ((y :: ys).map render) := by
        simp [List.intercalate]
      rw [this]
      exact (h x).append (ih.cons (by decide))

/-- The two members of the serialization: the version, then the users. -/
def policyMember (p : AuthPolicy) : Bool → List UInt8
  | true => quoted (ascii "version") ++ [58, 49]
  | false => quoted (ascii "users") ++ 58 :: object (p.users.toList.map userMember)

theorem toJson_eq (p : AuthPolicy) :
    p.toJson = object ([true, false].map p.policyMember) ++ [10] := by
  have : ascii "\"version\":1,\"users\":" =
      quoted (ascii "version") ++ [58, 49] ++ 44 :: (quoted (ascii "users") ++ [58]) := by
    decide
  rw [toJson, this]
  simp [object, policyMember, List.intercalate]

theorem reads_policyMember {p : AuthPolicy} (h : p.WellFormed) :
    Reads policyItem p.policyMember (false, none) [true, false] (true, some p.users) := by
  have hversion : IsText (ascii "version") := by decide
  have husers : IsText (ascii "users") := by decide
  have hne : ascii "users" ≠ ascii "version" := by decide
  have hnext : Reads policyItem p.policyMember (true, none) [false] (true, some p.users) := by
    refine .cons (fun b rest _ => ?_) (.nil _)
    rw [policyMember, List.append_assoc, policyItem, string_quoted husers]
    simp only [bind, Except.bind, List.cons_append, expect_cons (b := 58) (by decide), hne,
      false_and, if_false, Option.isNone_none, and_self, if_true, parseUsers_object h]
    rfl
  refine .cons (fun b rest hb => ?_) hnext
  · have hnumber : number (49 :: b :: rest) = .ok (1, b :: rest) := by
      rcases hb with rfl | rfl <;> rfl
    rw [policyMember, List.append_assoc, policyItem, string_quoted hversion]
    simp only [bind, Except.bind, List.cons_append, List.nil_append,
      expect_cons (b := 58) (by decide), and_self, if_true, hnumber]
    rfl

/-- The serialization is ASCII. -/
theorem toJson_ascii (p : AuthPolicy) : IsAscii p.toJson := by
  have hkey : ∀ t : AuthTarget, IsAscii t.key := by
    intro t
    cases t <;> decide
  have hmode : ∀ m : AuthPolicyMode, IsAscii m.asStr := by
    intro m
    cases m <;> decide
  have hdecimal : ∀ n, IsAscii (decimal n) := fun n b hb =>
    UInt8.lt_of_le_of_lt (mem_decimal hb).2 (by decide)
  have htarget : ∀ e, IsAscii (targetMember e) := fun e =>
    (hkey e.1).quoted.append ((hmode e.2).quoted.cons (by decide))
  have huser : ∀ e, IsAscii (userMember e) := fun e =>
    (hdecimal _).quoted.append ((IsAscii.object htarget).cons (by decide))
  rw [toJson_eq]
  refine (IsAscii.object fun b => ?_).append (by simp [IsAscii])
  cases b with
  | true =>
    have : IsAscii (quoted (ascii "version") ++ [58, 49]) := by decide
    exact this
  | false =>
    have : IsAscii (quoted (ascii "users")) := by decide
    exact this.append ((IsAscii.object huser).cons (by decide))

/-- The text of a well-formed policy is read as that policy, whatever follows it. -/
theorem parsePolicy_object {p : AuthPolicy} (h : p.WellFormed) (rest : List UInt8) :
    parsePolicy (object ([true, false].map p.policyMember) ++ rest) = .ok (p, rest) := by
  rw [parsePolicy, parseObject_object (fun b => ?_) (reads_policyMember h)]
  · rfl
  · cases b <;> exact ⟨_, rfl⟩

/-- A well-formed policy within the size limit is read back from its serialization. -/
theorem parseJson_toJson {p : AuthPolicy} (h : p.WellFormed)
    (hlen : p.toJson.length ≤ maxPolicyBytes) : parseJson p.toJson = .ok p := by
  have hascii : p.toJson.all (· < 128) := by
    simpa using fun b hb => p.toJson_ascii b hb
  have hparse : parsePolicy p.toJson = .ok (p, [10]) := by
    rw [toJson_eq, parsePolicy_object h]
  rw [parseJson, hparse, hascii]
  simp [Nat.not_lt.2 hlen, bind, Except.bind, pure, Except.pure, skipWhitespace,
    isAsciiWhitespace]

/-- The line end of the serialization is not needed. -/
theorem parseJson_object {p : AuthPolicy} (h : p.WellFormed)
    (hlen : p.toJson.length ≤ maxPolicyBytes + 1) :
    parseJson (object ([true, false].map p.policyMember)) = .ok p := by
  have hjson := toJson_eq p
  have hlen' : (object ([true, false].map p.policyMember)).length ≤ maxPolicyBytes := by
    rw [hjson, List.length_append, List.length_singleton] at hlen
    omega
  have hascii : (object ([true, false].map p.policyMember)).all (· < 128) := by
    simpa using fun b hb => p.toJson_ascii b (hjson ▸ List.mem_append_left _ hb)
  have hparse : parsePolicy (object ([true, false].map p.policyMember)) = .ok (p, []) := by
    rw [← List.append_nil (object _), parsePolicy_object h]
  generalize object ([true, false].map p.policyMember) = text at *
  rw [parseJson, hparse, hascii]
  simp [Nat.not_lt.2 hlen', bind, Except.bind, pure, Except.pure, skipWhitespace]

/-! ## Well-formed policies -/

section Members

variable {σ : Type} {item : σ → List UInt8 → Except AuthPolicyError (σ × List UInt8)}
  {P : σ → Prop}

/-- An invariant of the rounds of the loop holds of what it reads. -/
theorem members_inv
    (hitem : ∀ acc bs acc' bs', P acc → item acc bs = .ok (acc', bs') → P acc') (n : ℕ) :
    ∀ first acc bs acc' bs', P acc → members item n first acc bs = .ok (acc', bs') → P acc' := by
  induction n with
  | zero => exact fun _ _ _ _ _ _ h => by cases h
  | succ n ih =>
    intro first acc bs acc' bs' hacc h
    rw [members] at h
    split at h
    · cases h
      exact hacc
    · obtain ⟨bs₁, -, h⟩ := bind_eq_ok.1 h
      obtain ⟨r, hr, h⟩ := bind_eq_ok.1 h
      exact ih _ _ _ _ _ (hitem _ _ _ _ hacc hr) h

theorem parseObject_inv
    (hitem : ∀ acc bs acc' bs', P acc → item acc bs = .ok (acc', bs') → P acc') {acc acc' : σ}
    {bs bs' : List UInt8} (hacc : P acc) (h : parseObject item acc bs = .ok (acc', bs')) :
    P acc' := by
  obtain ⟨bs₁, -, h⟩ := bind_eq_ok.1 h
  exact members_inv hitem _ _ _ _ _ _ hacc h

end Members

/-- No target is stored as off. -/
def NoOff (targets : Targets) : Prop := ∀ target : AuthTarget, targets[target]? ≠ some .off

theorem NoOff.insert {targets : Targets} (h : NoOff targets) {target : AuthTarget}
    {mode : AuthPolicyMode} (hm : mode ≠ .off) : NoOff (targets.insert target mode) := by
  intro t
  rw [ExtTreeMap.getElem?_insert]
  split_ifs
  · simpa using hm
  · exact h t

theorem NoOff.erase {targets : Targets} (h : NoOff targets) {target : AuthTarget} :
    NoOff (targets.erase target) := by
  intro t
  rw [ExtTreeMap.getElem?_erase]
  split_ifs
  · simp
  · exact h t

theorem noOff_empty : NoOff ∅ := by
  intro t
  simp

theorem noOff_of_targetItem {acc acc' : Targets} {bs bs' : List UInt8} (hacc : NoOff acc)
    (h : targetItem acc bs = .ok (acc', bs')) : NoOff acc' := by
  obtain ⟨⟨name, bs₁⟩, -, h⟩ := bind_eq_ok.1 h
  obtain ⟨target, -, h⟩ := bind_eq_ok.1 h
  obtain ⟨bs₂, -, h⟩ := bind_eq_ok.1 h
  obtain ⟨⟨text, bs₃⟩, -, h⟩ := bind_eq_ok.1 h
  obtain ⟨mode, -, h⟩ := bind_eq_ok.1 h
  split_ifs at h with hc
  cases h
  exact hacc.insert fun hm => hc (.inl hm)

theorem WellFormed.insert {p : AuthPolicy} (hp : p.WellFormed) {uid : UInt32} (hz : uid ≠ 0)
    {targets : Targets} (ht : NoOff targets) :
    WellFormed ⟨p.users.insert uid targets⟩ := by
  have key : ∀ (v : UInt32) (ts : Targets), (p.users.insert uid targets)[v]? = some ts →
      (v = uid ∧ ts = targets) ∨ p.users[v]? = some ts := by
    intro v ts h
    rw [ExtTreeMap.getElem?_insert] at h
    split_ifs at h with hv
    · exact .inl ⟨(LawfulEqOrd.eq_of_compare hv).symm, (Option.some.inj h).symm⟩
    · exact .inr h
  refine ⟨fun v ts h => ?_, fun v ts h => ?_⟩
  · obtain ⟨rfl, -⟩ | h := key v ts h
    · exact hz
    · exact hp.ne_zero v ts h
  · obtain ⟨-, rfl⟩ | h := key v ts h
    · exact ht
    · exact hp.ne_off v ts h

theorem WellFormed.erase {p : AuthPolicy} (hp : p.WellFormed) (uid : UInt32) :
    WellFormed ⟨p.users.erase uid⟩ := by
  have key : ∀ (v : UInt32) (ts : Targets), (p.users.erase uid)[v]? = some ts →
      p.users[v]? = some ts := by
    intro v ts h
    rw [ExtTreeMap.getElem?_erase] at h
    split_ifs at h
    exact h
  exact ⟨fun v ts h => hp.ne_zero v ts (key v ts h), fun v ts h => hp.ne_off v ts (key v ts h)⟩

theorem wellFormed_default : (default : AuthPolicy).WellFormed := by
  have key : ∀ v : UInt32, (default : AuthPolicy).users[v]? = none := fun v => by
    simp [default]
  exact ⟨fun v ts h => (by rw [key] at h; cases h), fun v ts h => (by rw [key] at h; cases h)⟩

/-- `setMode` keeps policies well-formed. -/
theorem WellFormed.setMode {p q : AuthPolicy} (hp : p.WellFormed) {uid : UInt32}
    {target : AuthTarget} {mode : AuthPolicyMode} (h : p.setMode uid target mode = .ok q) :
    q.WellFormed := by
  have hz := ne_zero_of_setMode h
  rw [AuthPolicy.setMode, if_neg hz] at h
  split_ifs at h with hm
  · cases hu : p.users[uid]? with
    | none =>
      simp only [hu] at h
      cases h
      exact hp
    | some targets =>
      simp only [hu] at h
      split_ifs at h
      · cases h
        exact hp.erase uid
      · cases h
        exact hp.insert hz (NoOff.erase (hp.ne_off uid targets hu))
  · cases h
    refine hp.insert hz (NoOff.insert ?_ hm)
    cases hu : p.users[uid]? with
    | none => exact noOff_empty
    | some targets => exact hp.ne_off uid targets hu

theorem WellFormed.revokeUserTargets {p q : AuthPolicy} (hp : p.WellFormed) {uid : UInt32}
    (h : p.revokeUserTargets uid = .ok q) : q.WellFormed := by
  obtain ⟨p₁, h₁, h⟩ := bind_eq_ok.1 h
  exact (hp.setMode h₁).setMode h

theorem wellFormed_of_userItem {acc acc' : ExtTreeMap UInt32 Targets} {bs bs' : List UInt8}
    (hacc : WellFormed ⟨acc⟩) (h : userItem acc bs = .ok (acc', bs')) : WellFormed ⟨acc'⟩ := by
  obtain ⟨⟨text, bs₁⟩, -, h⟩ := bind_eq_ok.1 h
  dsimp only at h
  split at h
  · cases h
  · next uid _ =>
    by_cases hz : uid = 0 ∨ decimal uid.toNat ≠ text
    · rw [if_pos hz] at h
      cases h
    rw [if_neg hz] at h
    obtain ⟨bs₂, -, h⟩ := bind_eq_ok.1 h
    obtain ⟨⟨targets, bs₃⟩, ht, h⟩ := bind_eq_ok.1 h
    split_ifs at h
    cases h
    exact hacc.insert (fun h => hz (.inl h))
      (parseObject_inv (P := NoOff) (fun _ _ _ _ => noOff_of_targetItem) noOff_empty ht)

/-- No policy is read from a file that is too long. -/
theorem length_le_of_parseJson {bs : List UInt8} {p : AuthPolicy}
    (h : parseJson bs = .ok p) : bs.length ≤ maxPolicyBytes := by
  unfold parseJson at h
  split_ifs at h with hbad
  rw [Bool.or_eq_true, not_or, decide_eq_true_eq] at hbad
  exact Nat.not_lt.1 hbad.1

/-- Every policy that is read is well-formed. -/
theorem wellFormed_of_parseJson {bs : List UInt8} {p : AuthPolicy}
    (h : parseJson bs = .ok p) : p.WellFormed := by
  unfold parseJson at h
  split_ifs at h
  obtain ⟨⟨q, bs₁⟩, hq, h⟩ := bind_eq_ok.1 h
  dsimp only at h
  split_ifs at h
  cases h
  obtain ⟨⟨⟨version, users⟩, bs₂⟩, hs, hq⟩ := bind_eq_ok.1 hq
  have hinv : ∀ u, users = some u → WellFormed ⟨u⟩ := by
    refine parseObject_inv (P := fun s => ∀ u, s.2 = some u → WellFormed ⟨u⟩) ?_ (by simp) hs
    intro acc bs acc' bs' hacc h
    obtain ⟨⟨key, bs₁⟩, -, h⟩ := bind_eq_ok.1 h
    obtain ⟨bs₂, -, h⟩ := bind_eq_ok.1 h
    split_ifs at h
    · obtain ⟨⟨n, bs₃⟩, -, h⟩ := bind_eq_ok.1 h
      dsimp only at h
      split_ifs at h
      cases h
      exact hacc
    · obtain ⟨⟨users, bs₃⟩, hu, h⟩ := bind_eq_ok.1 h
      cases h
      intro u hu'
      cases hu'
      exact parseObject_inv (P := fun u => WellFormed ⟨u⟩) (fun _ _ _ _ => wellFormed_of_userItem)
        wellFormed_default hu
  dsimp only at hq
  split at hq
  · next u heq =>
    cases hq
    cases heq
    exact hinv _ rfl
  · cases hq

/-! ## The size of the serialization -/

/-- The bytes of a user and of the separator. -/
def weight (e : UInt32 × Targets) : ℕ := (userMember e).length + 1

theorem length_intercalate {X : Type} (f : X → List UInt8) {l : List X} (h : l ≠ []) :
    ([44].intercalate (l.map f)).length + 1 = (l.map fun x => (f x).length + 1).sum := by
  induction l with
  | nil => exact absurd rfl h
  | cons x l ih =>
    cases l with
    | nil => simp [List.intercalate]
    | cons y l =>
      have hcons : [44].intercalate ((x :: y :: l).map f) =
          f x ++ 44 :: [44].intercalate ((y :: l).map f) := by
        simp [List.intercalate]
      have hl := ih (by simp)
      have hx : ((x :: y :: l).map fun x => (f x).length + 1).sum =
          (f x).length + 1 + ((y :: l).map fun x => (f x).length + 1).sum := List.sum_cons
      rw [hcons, hx, ← hl, List.length_append, List.length_cons]
      omega

/-- The length of the serialization, user by user. -/
theorem length_toJson {p : AuthPolicy} (h : p.users.toList ≠ []) :
    p.toJson.length = 24 + (p.users.toList.map weight).sum := by
  have hobject := length_intercalate userMember h
  have hascii : (ascii "\"version\":1,\"users\":").length = 20 := by decide
  have hsum : (p.users.toList.map weight).sum =
      ([44].intercalate (p.users.toList.map userMember)).length + 1 := hobject.symm
  rw [toJson, object]
  simp only [List.length_cons, List.length_append, hascii, List.length_nil]
  omega

/-- A new entry is added to the entries of a map. -/
theorem toList_insert_perm {K V : Type} [Ord K] [TransOrd K] [LawfulEqOrd K]
    {m : ExtTreeMap K V} {k : K} {v : V} (hk : m[k]? = none) :
    (m.insert k v).toList.Perm ((k, v) :: m.toList) := by
  have nodup : ∀ m : ExtTreeMap K V, m.toList.Nodup := fun m =>
    m.distinct_keys_toList.imp fun h heq => h (by rw [heq]; exact ReflCmp.compare_self)
  have hnot : ∀ v', (k, v') ∉ m.toList := by
    intro v' h
    rw [ExtTreeMap.mem_toList_iff_getElem?_eq_some, hk] at h
    cases h
  rw [List.perm_ext_iff_of_nodup (nodup _) (List.nodup_cons.2 ⟨hnot v, nodup m⟩)]
  rintro ⟨k', v'⟩
  rw [ExtTreeMap.mem_toList_iff_getElem?_eq_some, ExtTreeMap.getElem?_insert, List.mem_cons,
    ExtTreeMap.mem_toList_iff_getElem?_eq_some]
  split_ifs with h
  · obtain rfl := LawfulEqOrd.eq_of_compare h
    simp [hk, eq_comm]
  · have hne : k' ≠ k := fun he => h (by rw [he]; exact ReflCmp.compare_self)
    simp [hne]

theorem length_decimal {n : ℕ} (h₁ : 10000 ≤ n) (h₂ : n < 100000) : (decimal n).length = 5 := by
  have hlog : Nat.log 10 n = 4 := (Nat.log_eq_iff (by simp)).2 ⟨h₁, h₂⟩
  rw [decimal, if_neg (by omega), List.length_map, List.length_reverse,
    Nat.length_digits 10 n (by decide) (by omega), hlog]

end AuthPolicy

end KFaceAuth
