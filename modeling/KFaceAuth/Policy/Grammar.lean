import KFaceAuth.Policy.Json

/-!
# The language of policies

The version-1 policy language, as a grammar over tokens with whitespace between
them, and what a text of it denotes.

* `parseJson_iff`: the parser accepts exactly the texts of the language, within
  the size limit, and returns the entries of the text.
-/

namespace KFaceAuth

open Std

namespace PolicyGrammar

open PolicyParser

/-! ## The grammar -/

inductive Token
  | openBrace
  | closeBrace
  | colon
  | comma
  | text (text : List UInt8)
  | one

def Token.bytes : Token → List UInt8
  | openBrace => [123]
  | closeBrace => [125]
  | colon => [58]
  | comma => [44]
  | text t => AuthPolicy.quoted t
  | one => [49]

/-- ASCII whitespace only. -/
def White (ws : List UInt8) : Prop := ∀ b ∈ ws, isAsciiWhitespace b = true

/-- The bytes start with the tokens, with whitespace before each, and `rest`
    follows. -/
def Starts : List Token → List UInt8 → List UInt8 → Prop
  | [], bs, rest => bs = rest
  | token :: tokens, bs, rest => ∃ ws mid, White ws ∧ bs = ws ++ (token.bytes ++ mid) ∧
      Starts tokens mid rest

/-- The bytes are the tokens, up to whitespace between them and around. -/
def Spaced (tokens : List Token) (bs : List UInt8) : Prop :=
  ∃ rest, Starts tokens bs rest ∧ White rest

/-- An object: members between braces, with single commas between them. -/
def objectTokens (members : List (List Token)) : List Token :=
  .openBrace :: ([Token.comma].intercalate members ++ [Token.closeBrace])

/-- The members of a user, in the order of the text. -/
abbrev TargetsText := List (AuthTarget × AuthPolicyMode)

/-- The users, in the order of the text. -/
abbrev UsersText := List (UInt32 × TargetsText)

def targetTokens (e : AuthTarget × AuthPolicyMode) : List Token :=
  [.text e.1.key, .colon, .text e.2.asStr]

def userTokens (e : UInt32 × TargetsText) : List Token :=
  .text (decimal e.1.toNat) :: .colon :: objectTokens (e.2.map targetTokens)

def versionTokens : List Token := [.text (ascii "version"), .colon, .one]

def usersTokens (users : UsersText) : List Token :=
  .text (ascii "users") :: .colon :: objectTokens (users.map userTokens)

/-- The object of a policy, with its two members in either order. -/
def policyTokens (versionFirst : Bool) (users : UsersText) : List Token :=
  objectTokens (if versionFirst then [versionTokens, usersTokens users]
    else [usersTokens users, versionTokens])

/-- Distinct targets, with a mode that is not off. -/
def ValidTargets (targets : TargetsText) : Prop :=
  (targets.map Prod.fst).Nodup ∧ ∀ e ∈ targets, e.2 ≠ .off

/-- Distinct users, none of them user zero. -/
def ValidUsers (users : UsersText) : Prop :=
  (users.map Prod.fst).Nodup ∧ ∀ e ∈ users, e.1 ≠ 0 ∧ ValidTargets e.2

/-- The policy has the entries of the text and no others. -/
def Denotes (users : UsersText) (p : AuthPolicy) : Prop :=
  (∀ uid, p.users.contains uid = true ↔ ∃ targets, (uid, targets) ∈ users) ∧
  ∀ uid targets, (uid, targets) ∈ users → ∀ map, p.users[uid]? = some map →
    ∀ target mode, map[target]? = some mode ↔ (target, mode) ∈ targets

/-! ## Tokens -/

theorem skipWhitespace_append {ws : List UInt8} (h : White ws) (bs : List UInt8) :
    skipWhitespace (ws ++ bs) = skipWhitespace bs := by
  induction ws with
  | nil => rfl
  | cons b ws ih =>
    rw [List.cons_append, skipWhitespace, if_pos (h b List.mem_cons_self)]
    exact ih fun c hc => h c (List.mem_cons_of_mem _ hc)

/-- What is skipped is whitespace. -/
theorem exists_skipWhitespace (bs : List UInt8) :
    ∃ ws, White ws ∧ bs = ws ++ skipWhitespace bs := by
  induction bs with
  | nil => exact ⟨[], by simp [White], rfl⟩
  | cons b bs ih =>
    obtain ⟨ws, hws, hbs⟩ := ih
    by_cases hb : isAsciiWhitespace b
    · refine ⟨b :: ws, ?_, ?_⟩
      · rintro c (_ | ⟨_, hc⟩)
        · exact hb
        · exact hws c hc
      · rw [skipWhitespace, if_pos hb, List.cons_append, ← hbs]
    · exact ⟨[], by simp [White], by rw [skipWhitespace, if_neg hb]; rfl⟩

theorem skipWhitespace_eq_nil {bs : List UInt8} : skipWhitespace bs = [] ↔ White bs := by
  constructor
  · intro h
    obtain ⟨ws, hws, hbs⟩ := exists_skipWhitespace bs
    rw [h, List.append_nil] at hbs
    rwa [hbs]
  · intro h
    have := skipWhitespace_append h []
    rwa [List.append_nil] at this

/-- The first byte of a token is no whitespace. -/
theorem skipWhitespace_bytes (token : Token) (bs : List UInt8) :
    skipWhitespace (token.bytes ++ bs) = token.bytes ++ bs := by
  cases token <;> exact skipWhitespace_cons (by decide) _

theorem starts_append {tokens tokens' : List Token} {bs rest : List UInt8} :
    Starts (tokens ++ tokens') bs rest ↔ ∃ mid, Starts tokens bs mid ∧ Starts tokens' mid rest := by
  induction tokens generalizing bs with
  | nil => exact ⟨fun h => ⟨bs, rfl, h⟩, fun ⟨_, h, h'⟩ => by rw [show bs = _ from h]; exact h'⟩
  | cons token tokens ih =>
    constructor
    · rintro ⟨ws, mid, hws, hbs, h⟩
      obtain ⟨mid', h₁, h₂⟩ := ih.1 h
      exact ⟨mid', ⟨ws, mid, hws, hbs, h₁⟩, h₂⟩
    · rintro ⟨mid', ⟨ws, mid, hws, hbs, h₁⟩, h₂⟩
      exact ⟨ws, mid, hws, hbs, ih.2 ⟨mid', h₁, h₂⟩⟩

/-- Whitespace before the first token is skipped. -/
theorem starts_skipWhitespace {token : Token} {tokens : List Token} {bs rest : List UInt8} :
    Starts (token :: tokens) (skipWhitespace bs) rest ↔ Starts (token :: tokens) bs rest := by
  constructor
  · rintro ⟨ws, mid, hws, hbs, h⟩
    obtain ⟨ws', hws', hbs'⟩ := exists_skipWhitespace bs
    refine ⟨ws' ++ ws, mid, ?_, by rw [List.append_assoc, ← hbs, ← hbs'], h⟩
    intro b hb
    rcases List.mem_append.1 hb with hb | hb
    · exact hws' b hb
    · exact hws b hb
  · rintro ⟨ws, mid, hws, rfl, h⟩
    refine ⟨[], mid, by simp [White], ?_, h⟩
    rw [skipWhitespace_append hws, skipWhitespace_bytes]
    rfl

/-- The bytes begin with the first token, once whitespace is skipped. -/
theorem skipWhitespace_of_starts {token : Token} {tokens : List Token} {bs rest : List UInt8}
    (h : Starts (token :: tokens) bs rest) : ∃ mid, skipWhitespace bs = token.bytes ++ mid ∧
      Starts tokens mid rest := by
  obtain ⟨ws, mid, hws, rfl, h⟩ := h
  exact ⟨mid, by rw [skipWhitespace_append hws, skipWhitespace_bytes], h⟩

theorem starts_of_skipWhitespace {token : Token} {bs mid : List UInt8}
    (h : skipWhitespace bs = token.bytes ++ mid) : Starts [token] bs mid := by
  obtain ⟨ws, hws, hbs⟩ := exists_skipWhitespace bs
  exact ⟨ws, mid, hws, by rw [← h, ← hbs], rfl⟩

/-- Every token takes a byte. -/
theorem length_of_starts {tokens : List Token} {bs rest : List UInt8} (h : Starts tokens bs rest) :
    tokens.length + rest.length ≤ bs.length := by
  induction tokens generalizing bs with
  | nil => exact (congrArg List.length (show bs = rest from h)).symm.le.trans_eq' (by simp)
  | cons token tokens ih =>
    obtain ⟨ws, mid, -, rfl, h⟩ := h
    have hpos : 0 < token.bytes.length := by
      cases token <;> simp [Token.bytes, AuthPolicy.quoted]
    have := ih h
    simp only [List.length_append, List.length_cons]
    omega

/-! ## The parser on tokens -/

variable {bs rest : List UInt8}

theorem expect_iff {token : Token} {b : UInt8} (h : token.bytes = [b]) :
    expect b bs = .ok rest ↔ Starts [token] bs rest := by
  constructor
  · intro hexpect
    refine starts_of_skipWhitespace ?_
    unfold expect at hexpect
    split at hexpect
    · cases hexpect
    · next c bs' hskip =>
      split_ifs at hexpect with hc
      cases hexpect
      rw [hskip, hc, h]
      rfl
  · intro hstarts
    obtain ⟨mid, hskip, hmid⟩ := skipWhitespace_of_starts hstarts
    obtain rfl : mid = rest := hmid
    rw [expect, hskip, h]
    exact if_pos rfl

theorem stringBody_ok {t : List UInt8} (h : stringBody bs = .ok (t, rest)) :
    bs = t ++ 34 :: rest ∧ IsText t := by
  induction bs generalizing t with
  | nil => cases h
  | cons b bs ih =>
    unfold stringBody at h
    split_ifs at h with hquote hbad
    · cases h
      exact ⟨by rw [hquote]; rfl, fun _ hb => by cases hb⟩
    · obtain ⟨⟨t', rest'⟩, hbody, h⟩ := bind_eq_ok.1 h
      cases h
      obtain ⟨rfl, ht⟩ := ih hbody
      refine ⟨rfl, ?_⟩
      rintro c (_ | ⟨_, hc⟩)
      · exact ⟨hquote, fun hb => hbad (.inl hb), fun hb => hbad (.inr hb)⟩
      · exact ht c hc

theorem string_ok {t : List UInt8} (h : string bs = .ok (t, rest)) : Starts [.text t] bs rest := by
  obtain ⟨mid, hexpect, hbody⟩ := bind_eq_ok.1 h
  obtain ⟨rfl, -⟩ := stringBody_ok hbody
  refine starts_of_skipWhitespace ?_
  unfold expect at hexpect
  split at hexpect
  · cases hexpect
  · next c bs' hskip =>
    split_ifs at hexpect with hc
    cases hexpect
    rw [hskip, hc]
    simp [Token.bytes, AuthPolicy.quoted]

theorem string_of_starts {t : List UInt8} (ht : IsText t) (h : Starts [.text t] bs rest) :
    string bs = .ok (t, rest) := by
  obtain ⟨mid, hskip, hmid⟩ := skipWhitespace_of_starts h
  obtain rfl : mid = rest := hmid
  have : string bs = string (skipWhitespace bs) := by
    rw [string, string, expect, expect, hskip, skipWhitespace_bytes]
  rw [this, hskip]
  exact string_quoted ht mid

/-- No digit follows. -/
def NoDigit (rest : List UInt8) : Prop := ∀ b ∈ rest.head?, isAsciiDigit b = false

theorem le_foldl_digits (n : ℕ) (ds : List UInt8) :
    n ≤ ds.foldl (fun n d => 10 * n + (d - 48).toNat) n := by
  induction ds generalizing n with
  | nil => exact le_rfl
  | cons d ds ih =>
    rw [List.foldl_cons]
    exact Nat.le_trans (by omega) (ih _)

/-- The only canonical text of the number one. -/
theorem eq_one_of_parseU32 {text : List UInt8} (hdigits : ∀ b ∈ text, isAsciiDigit b = true)
    (hcanonical : ¬ (text.isEmpty || (decide (text.length > 1) && decide (text.head? = some 48)))
      = true) (h : parseU32 text = some 1) : text = [49] := by
  cases text with
  | nil => simp at hcanonical
  | cons d ds =>
    have hd := hdigits d List.mem_cons_self
    have hsign : ∀ rest, d :: ds ≠ 43 :: rest := by
      rintro rest heq
      cases heq
      exact absurd hd (by decide)
    have hvalue : (d :: ds).foldl (fun n d => 10 * n + (d - 48).toNat) 0 = 1 := by
      rw [parseU32] at h
      · simp only [List.isEmpty_cons, List.all_eq_true.2 hdigits, Bool.not_true, Bool.or_self,
          Bool.false_eq_true, if_false] at h
        split_ifs at h with hlt
        have htoNat := congrArg UInt32.toNat (Option.some.inj h)
        rwa [UInt32.toNat_ofNat_of_lt' hlt] at htoNat
      · exact hsign
    have hd48 : 48 ≤ d := by
      have : 48 ≤ d ∧ d ≤ 57 := by simpa [isAsciiDigit] using hd
      exact this.1
    have htoNat : (d - 48).toNat = d.toNat - 48 := UInt8.toNat_sub_of_le _ _ hd48
    rw [List.foldl_cons, htoNat] at hvalue
    cases ds with
    | nil =>
      obtain rfl : d = 49 := UInt8.toNat_inj.1 (show d.toNat = 49 by simp at hvalue; omega)
      rfl
    | cons d' ds =>
      -- a first digit that is not zero stands for at least ten
      have hne : d ≠ 48 := by simpa using hcanonical
      have hlt : 48 < d.toNat := by
        have hle := UInt8.le_iff_toNat_le.1 hd48
        have : d.toNat ≠ 48 := fun h => hne (UInt8.toNat_inj.1 h)
        simp at hle
        omega
      rw [List.foldl_cons] at hvalue
      have hle := le_foldl_digits (10 * (10 * 0 + (d.toNat - 48)) + (d' - 48).toNat) ds
      omega

theorem number_ok (h : number bs = .ok (1, rest)) : Starts [.one] bs rest := by
  refine starts_of_skipWhitespace ?_
  unfold number at h
  dsimp only at h
  split_ifs at h with hcanonical
  split at h
  · cases h
  · next n hparse =>
    cases h
    have htext := eq_one_of_parseU32 (fun b hb => List.all_eq_true.1 List.all_takeWhile b hb)
      hcanonical hparse
    have := List.takeWhile_append_dropWhile (p := isAsciiDigit) (l := skipWhitespace bs)
    rw [htext] at this
    exact this.symm

theorem number_of_starts (h : Starts [.one] bs rest) (hrest : NoDigit rest) :
    number bs = .ok (1, rest) := by
  obtain ⟨mid, hskip, hmid⟩ := skipWhitespace_of_starts h
  obtain rfl : mid = rest := hmid
  have hnone : mid.takeWhile isAsciiDigit = [] ∧ mid.dropWhile isAsciiDigit = mid := by
    cases mid with
    | nil => exact ⟨rfl, rfl⟩
    | cons b mid =>
      have hb : isAsciiDigit b = false := hrest b rfl
      exact ⟨List.takeWhile_cons_of_neg (by simp [hb]), List.dropWhile_cons_of_neg (by simp [hb])⟩
  have htake : (skipWhitespace bs).takeWhile isAsciiDigit = [49] := by
    rw [hskip, Token.bytes, List.singleton_append, List.takeWhile_cons_of_pos (by decide), hnone.1]
  have hdrop : (skipWhitespace bs).dropWhile isAsciiDigit = mid := by
    rw [hskip, Token.bytes, List.singleton_append, List.dropWhile_cons_of_pos (by decide), hnone.2]
  unfold number
  simp only [htake, hdrop]
  rfl

/-! ## Objects -/

section Members

variable {σ X : Type} {item : σ → List UInt8 → Except AuthPolicyError (σ × List UInt8)}
  {render : X → List Token} {Step : σ → X → σ → Prop}

/-- What is read of members, one after another. -/
inductive Steps (Step : σ → X → σ → Prop) : σ → List X → σ → Prop
  | nil (acc : σ) : Steps Step acc [] acc
  | cons {acc acc₁ acc' : σ} {x : X} {xs : List X} :
    Step acc x acc₁ → Steps Step acc₁ xs acc' → Steps Step acc (x :: xs) acc'

/-- A round of the loop reads the tokens of a member. -/
structure Reader (item : σ → List UInt8 → Except AuthPolicyError (σ × List UInt8))
    (render : X → List Token) (Step : σ → X → σ → Prop) : Prop where
  head : ∀ x, ∃ t tokens, render x = .text t :: tokens
  sound : ∀ {acc acc' bs rest}, item acc bs = .ok (acc', rest) →
    ∃ x, Step acc x acc' ∧ Starts (render x) bs rest
  complete : ∀ {acc acc' x bs rest}, Step acc x acc' → Starts (render x) bs rest → NoDigit rest →
    item acc bs = .ok (acc', rest)

/-- Members with a comma before each. -/
def commaTokens (render : X → List Token) (xs : List X) : List Token :=
  xs.flatMap fun x => .comma :: render x

/-- The tokens that are left of the members of an object. -/
def restTokens (render : X → List Token) : Bool → List X → List Token
  | true, x :: xs => render x ++ commaTokens render xs
  | _, xs => commaTokens render xs

theorem restTokens_true (xs : List X) :
    restTokens render true xs = [.comma].intercalate (xs.map render) := by
  cases xs with
  | nil => rfl
  | cons x xs =>
    rw [restTokens]
    induction xs generalizing x with
    | nil => simp [commaTokens, List.intercalate]
    | cons y xs ih =>
      rw [List.map_cons, List.map_cons, List.intercalate_cons_cons, ← List.map_cons, ← ih y]
      simp [commaTokens]

theorem members_succ {n : ℕ} {first : Bool} {acc : σ}
    (h : ∀ bs', skipWhitespace bs ≠ 125 :: bs') :
    members item (n + 1) first acc bs = (do
      let bs ← separator first (skipWhitespace bs)
      let (acc, bs) ← item acc bs
      members item n false acc bs) := by
  rw [members]
  split
  · next bs' hbs' => exact absurd hbs' (h bs')
  · rfl

theorem members_sound (hreader : Reader item render Step) {n : ℕ} {first : Bool} {acc acc' : σ}
    (h : members item n first acc bs = .ok (acc', rest)) : ∃ xs, Steps Step acc xs acc' ∧
      Starts (restTokens render first xs ++ [Token.closeBrace]) bs rest := by
  induction n generalizing first acc bs with
  | zero => cases h
  | succ n ih =>
    by_cases hclose : ∃ bs', skipWhitespace bs = 125 :: bs'
    · obtain ⟨bs', hbs'⟩ := hclose
      rw [members, hbs'] at h
      cases h
      refine ⟨[], .nil _, ?_⟩
      cases first <;> exact starts_of_skipWhitespace hbs'
    · rw [members_succ (not_exists.1 hclose)] at h
      obtain ⟨bs₁, hseparator, h⟩ := bind_eq_ok.1 h
      obtain ⟨⟨acc₁, bs₂⟩, hitem, h⟩ := bind_eq_ok.1 h
      obtain ⟨x, hstep, hx⟩ := hreader.sound hitem
      obtain ⟨xs, hsteps, hxs⟩ := ih h
      refine ⟨x :: xs, .cons hstep hsteps, ?_⟩
      have hrest : Starts (commaTokens render xs ++ [Token.closeBrace]) bs₂ rest := hxs
      cases first with
      | true =>
        cases hseparator
        obtain ⟨t, tokens, hrender⟩ := hreader.head x
        rw [hrender, starts_skipWhitespace, ← hrender] at hx
        rw [restTokens, List.append_assoc]
        exact starts_append.2 ⟨bs₂, hx, hrest⟩
      | false =>
        have hcomma : Starts [.comma] bs bs₁ :=
          starts_skipWhitespace.1 ((expect_iff rfl).1 hseparator)
        change Starts (([Token.comma] ++ render x) ++ commaTokens render xs ++ _) bs rest
        rw [List.append_assoc, List.append_assoc]
        exact starts_append.2 ⟨bs₁, hcomma, starts_append.2 ⟨bs₂, hx, hrest⟩⟩

/-- After a member comes a comma or the closing brace. -/
theorem noDigit_of_starts {xs : List X} {mid : List UInt8}
    (h : Starts (commaTokens render xs ++ [Token.closeBrace]) mid rest) : NoDigit mid := by
  have key : ∀ token tokens, token.bytes = [44] ∨ token.bytes = [125] →
      Starts (token :: tokens) mid rest → NoDigit mid := by
    rintro token tokens htoken ⟨ws, mid', hws, rfl, -⟩ b hb
    cases ws with
    | nil => rcases htoken with h | h <;> rw [h] at hb <;> cases hb <;> decide
    | cons c ws =>
      obtain rfl : c = b := by simpa using hb
      have hwhite := hws c List.mem_cons_self
      simp only [isAsciiWhitespace, Bool.or_eq_true, decide_eq_true_eq, or_assoc] at hwhite
      rcases hwhite with rfl | rfl | rfl | rfl | rfl <;> decide
  cases xs with
  | nil => exact key _ _ (.inr rfl) h
  | cons x xs => exact key .comma _ (.inl rfl) h

theorem members_complete (hreader : Reader item render Step) {xs : List X} {n : ℕ} {first : Bool}
    {acc acc' : σ} (hsteps : Steps Step acc xs acc')
    (h : Starts (restTokens render first xs ++ [Token.closeBrace]) bs rest) (hn : xs.length < n) :
    members item n first acc bs = .ok (acc', rest) := by
  induction hsteps generalizing n first bs with
  | nil acc =>
    obtain ⟨n, rfl⟩ : ∃ m, n = m + 1 := ⟨n - 1, by simp at hn; omega⟩
    have hclose : Starts [.closeBrace] bs rest := by cases first <;> exact h
    obtain ⟨mid, hskip, hmid⟩ := skipWhitespace_of_starts hclose
    obtain rfl : mid = rest := hmid
    rw [members, hskip]
    rfl
  | @cons acc acc₁ acc' x xs hstep _ ih =>
    obtain ⟨n, rfl⟩ : ∃ m, n = m + 1 := ⟨n - 1, by simp at hn; omega⟩
    obtain ⟨t, tokens, hrender⟩ := hreader.head x
    cases first with
    | true =>
      rw [restTokens, List.append_assoc, starts_append] at h
      obtain ⟨mid, hx, hrest⟩ := h
      have hitem : item acc (skipWhitespace bs) = .ok (acc₁, mid) := by
        refine hreader.complete hstep ?_ (noDigit_of_starts hrest)
        rwa [hrender, starts_skipWhitespace, ← hrender]
      rw [hrender] at hx
      obtain ⟨mid', hskip, -⟩ := skipWhitespace_of_starts hx
      rw [members_succ (by rw [hskip]; simp [Token.bytes, AuthPolicy.quoted]), separator,
        if_pos rfl]
      change (item acc (skipWhitespace bs) >>= _) = _
      rw [hitem]
      exact ih hrest (by simpa using hn)
    | false =>
      change Starts (([Token.comma] ++ render x) ++ commaTokens render xs ++ _) bs rest at h
      rw [List.append_assoc, List.append_assoc, starts_append] at h
      obtain ⟨bs₁, hcomma, h⟩ := h
      obtain ⟨mid, hx, hrest⟩ := starts_append.1 h
      obtain ⟨mid', hskip, -⟩ := skipWhitespace_of_starts hcomma
      rw [members_succ (by rw [hskip]; simp [Token.bytes]), separator, if_neg (by decide),
        (expect_iff rfl).2 (starts_skipWhitespace.2 hcomma)]
      change (item acc bs₁ >>= _) = _
      rw [hreader.complete hstep hx (noDigit_of_starts hrest)]
      exact ih hrest (by simpa using hn)

theorem length_le_commaTokens (xs : List X) : xs.length ≤ (commaTokens render xs).length := by
  induction xs with
  | nil => exact Nat.zero_le _
  | cons x xs ih =>
    rw [commaTokens, List.flatMap_cons, ← commaTokens, List.length_append]
    simp only [List.length_cons]
    omega

theorem bytes_openBrace : Token.openBrace.bytes = [123] := rfl

theorem parseObject_sound (hreader : Reader item render Step) {acc acc' : σ}
    (h : parseObject item acc bs = .ok (acc', rest)) : ∃ xs, Steps Step acc xs acc' ∧
      Starts (objectTokens (xs.map render)) bs rest := by
  obtain ⟨bs₁, hopen, h⟩ := bind_eq_ok.1 h
  obtain ⟨xs, hsteps, hxs⟩ := members_sound hreader h
  rw [restTokens_true] at hxs
  exact ⟨xs, hsteps, starts_append.2 ⟨bs₁, (expect_iff bytes_openBrace).1 hopen, hxs⟩⟩

theorem parseObject_complete (hreader : Reader item render Step) {acc acc' : σ} {xs : List X}
    (hsteps : Steps Step acc xs acc') (h : Starts (objectTokens (xs.map render)) bs rest) :
    parseObject item acc bs = .ok (acc', rest) := by
  rw [objectTokens, ← List.singleton_append, starts_append, ← restTokens_true] at h
  obtain ⟨bs₁, hopen, h⟩ := h
  -- every member takes a byte
  have hlength : xs.length < bs₁.length + 1 := by
    have hmember : xs.length ≤ (restTokens render true xs).length := by
      cases xs with
      | nil => exact Nat.zero_le _
      | cons x xs =>
        obtain ⟨t, tokens, hrender⟩ := hreader.head x
        have hcommas : xs.length ≤ (commaTokens render xs).length := length_le_commaTokens xs
        rw [restTokens, hrender, List.length_append]
        simp only [List.length_cons]
        omega
    have := length_of_starts h
    rw [List.length_append] at this
    omega
  rw [parseObject, (expect_iff bytes_openBrace).2 hopen]
  exact members_complete hreader hsteps h hlength

end Members

/-! ## Maps -/

section Maps

variable {K V W : Type} [Ord K] [TransOrd K] [LawfulEqOrd K] {valid : K × W → Prop} {val : W → V}

/-- An entry is inserted, which is valid and whose key is new. -/
def InsertStep (valid : K × W → Prop) (val : W → V) (acc : ExtTreeMap K V) (e : K × W)
    (acc' : ExtTreeMap K V) : Prop :=
  valid e ∧ acc.contains e.1 = false ∧ acc' = acc.insert e.1 (val e.2)

theorem steps_insert {acc acc' : ExtTreeMap K V} {xs : List (K × W)} :
    Steps (InsertStep valid val) acc xs acc' ↔
      (∀ e ∈ xs, valid e ∧ acc.contains e.1 = false) ∧ (xs.map Prod.fst).Nodup ∧
      acc' = insertAll acc (xs.map fun e => (e.1, val e.2)) := by
  induction xs generalizing acc with
  | nil =>
    constructor
    · rintro ⟨⟩
      exact ⟨by simp, .nil, rfl⟩
    · rintro ⟨-, -, rfl⟩
      exact .nil _
  | cons e xs ih =>
    have hcontains : ∀ k, (acc.insert e.1 (val e.2)).contains k = false ↔
        e.1 ≠ k ∧ acc.contains k = false := by
      intro k
      rw [ExtTreeMap.contains_insert, Bool.or_eq_false_iff, beq_eq_false_iff_ne, ne_eq,
        LawfulEqOrd.compare_eq_iff_eq]
    constructor
    · rintro (_ | @⟨_, _, _, _, _, ⟨hvalid, hnew, rfl⟩, hsteps⟩)
      obtain ⟨hall, hnodup, rfl⟩ := ih.1 hsteps
      refine ⟨?_, ?_, rfl⟩
      · rintro e' (_ | ⟨_, he'⟩)
        · exact ⟨hvalid, hnew⟩
        · exact ⟨(hall e' he').1, ((hcontains _).1 (hall e' he').2).2⟩
      · rw [List.map_cons, List.nodup_cons]
        refine ⟨fun hmem => ?_, hnodup⟩
        obtain ⟨e', he', heq⟩ := List.mem_map.1 hmem
        exact ((hcontains _).1 (hall e' he').2).1 heq.symm
    · rintro ⟨hall, hnodup, rfl⟩
      rw [List.map_cons, List.nodup_cons] at hnodup
      obtain ⟨hvalid, hnew⟩ := hall e List.mem_cons_self
      refine .cons ⟨hvalid, hnew, rfl⟩ (ih.2 ⟨fun e' he' => ?_, hnodup.2, rfl⟩)
      obtain ⟨hvalid', hnew'⟩ := hall e' (List.mem_cons_of_mem _ he')
      exact ⟨hvalid', (hcontains _).2
        ⟨fun heq => hnodup.1 (heq ▸ List.mem_map_of_mem he'), hnew'⟩⟩

theorem getElem?_insertAll_iff {l : List (K × V)} (h : (l.map Prod.fst).Nodup) (k : K) (v : V) :
    (insertAll ∅ l)[k]? = some v ↔ (k, v) ∈ l := by
  have hpairwise : l.Pairwise fun a b => a.1 ≠ b.1 := List.pairwise_map.1 h
  rw [getElem?_insertAll ∅ hpairwise, ExtTreeMap.getElem?_empty, Option.or_none,
    Option.map_eq_some_iff]
  constructor
  · rintro ⟨e, hfind, rfl⟩
    have hk : e.1 = k := LawfulEqOrd.eq_of_compare (by simpa using List.find?_some hfind)
    have hmem := List.mem_of_find?_eq_some hfind
    rw [← hk]
    exact hmem
  · intro hmem
    cases hfind : l.find? fun e => compare e.1 k = .eq with
    | none =>
      have := List.find?_eq_none.1 hfind _ hmem
      simp at this
    | some e =>
      have hk : e.1 = k := LawfulEqOrd.eq_of_compare (by simpa using List.find?_some hfind)
      have heq : e = (k, v) :=
        List.inj_on_of_nodup_map h (List.mem_of_find?_eq_some hfind) hmem hk
      exact ⟨e, rfl, by rw [heq]⟩

end Maps

/-! ## Policies -/

theorem isText_ascii : IsText (ascii "version") ∧ IsText (ascii "users") := by
  decide

theorem target_parse_iff {t : List UInt8} {target : AuthTarget} :
    AuthTarget.parse t = .ok target ↔ t = target.key := by
  unfold AuthTarget.parse
  split_ifs with h₁ h₂
  · cases target <;> simp +decide [AuthTarget.key, h₁]
  · cases target <;> simp +decide [AuthTarget.key, h₂]
  · cases target <;> simp [AuthTarget.key, h₁, h₂]

theorem mode_parse_iff {t : List UInt8} {mode : AuthPolicyMode} :
    AuthPolicyMode.parse t = .ok mode ↔ t = mode.asStr := by
  unfold AuthPolicyMode.parse
  split_ifs with h₁ h₂ h₃
  · cases mode <;> simp +decide [AuthPolicyMode.asStr, h₁]
  · cases mode <;> simp +decide [AuthPolicyMode.asStr, h₂]
  · cases mode <;> simp +decide [AuthPolicyMode.asStr, h₃]
  · cases mode <;> simp [AuthPolicyMode.asStr, h₁, h₂, h₃]

theorem bytes_colon : Token.colon.bytes = [58] := rfl

theorem reader_target : Reader targetItem targetTokens
    (InsertStep (fun e => e.2 ≠ .off) fun mode => mode) where
  head e := ⟨_, _, rfl⟩
  sound {acc acc' bs rest} h := by
    obtain ⟨⟨name, bs₁⟩, hname, h⟩ := bind_eq_ok.1 h
    obtain ⟨target, htarget, h⟩ := bind_eq_ok.1 h
    obtain ⟨bs₂, hcolon, h⟩ := bind_eq_ok.1 h
    obtain ⟨⟨text, bs₃⟩, htext, h⟩ := bind_eq_ok.1 h
    obtain ⟨mode, hmode, h⟩ := bind_eq_ok.1 h
    split_ifs at h with hbad
    cases h
    obtain rfl := target_parse_iff.1 htarget
    obtain rfl := mode_parse_iff.1 hmode
    obtain ⟨hoff, hnew⟩ := not_or.1 hbad
    refine ⟨(target, mode), ⟨hoff, Bool.eq_false_iff.2 hnew, rfl⟩, ?_⟩
    exact starts_append.2 ⟨bs₁, string_ok hname, starts_append.2 ⟨bs₂,
      (expect_iff bytes_colon).1 hcolon, string_ok htext⟩⟩
  complete {acc acc' e bs rest} hstep h _ := by
    obtain ⟨hoff, hnew, rfl⟩ := hstep
    obtain ⟨bs₁, hname, h⟩ := starts_append.1
      (show Starts ([Token.text e.1.key] ++ ([Token.colon] ++ [Token.text e.2.asStr])) bs rest
        from h)
    obtain ⟨bs₂, hcolon, htext⟩ := starts_append.1 h
    refine bind_eq_ok.2 ⟨_, string_of_starts (AuthPolicy.isText_key _) hname, ?_⟩
    refine bind_eq_ok.2 ⟨_, target_parse_iff.2 rfl, ?_⟩
    refine bind_eq_ok.2 ⟨_, (expect_iff bytes_colon).2 hcolon, ?_⟩
    refine bind_eq_ok.2 ⟨_, string_of_starts (AuthPolicy.isText_asStr _) htext, ?_⟩
    refine bind_eq_ok.2 ⟨_, mode_parse_iff.2 rfl, ?_⟩
    exact if_neg (by simp [hoff, hnew])

/-- The targets of a user are those of the text. -/
theorem parseTargets_sound {targets : Targets} (h : parseTargets bs = .ok (targets, rest)) :
    ∃ ts, ValidTargets ts ∧ targets = insertAll ∅ ts ∧
      Starts (objectTokens (ts.map targetTokens)) bs rest := by
  obtain ⟨ts, hsteps, hts⟩ := parseObject_sound reader_target h
  obtain ⟨hvalid, hnodup, htargets⟩ := steps_insert.1 hsteps
  exact ⟨ts, ⟨hnodup, fun e he => (hvalid e he).1⟩, by simpa using htargets, hts⟩

theorem parseTargets_complete {ts : TargetsText} (hvalid : ValidTargets ts)
    (h : Starts (objectTokens (ts.map targetTokens)) bs rest) :
    parseTargets bs = .ok (insertAll ∅ ts, rest) :=
  parseObject_complete reader_target (steps_insert.2 ⟨fun e he => ⟨hvalid.2 e he, by simp⟩,
    hvalid.1, by simp⟩) h

theorem reader_user : Reader userItem userTokens
    (InsertStep (fun e => e.1 ≠ 0 ∧ ValidTargets e.2) fun ts => insertAll ∅ ts) where
  head e := ⟨_, _, rfl⟩
  sound {acc acc' bs rest} h := by
    obtain ⟨⟨text, bs₁⟩, htext, h⟩ := bind_eq_ok.1 h
    dsimp only at h
    split at h
    · cases h
    · next uid huid =>
      by_cases hbad : uid = 0 ∨ decimal uid.toNat ≠ text
      · rw [if_pos hbad] at h
        cases h
      rw [if_neg hbad] at h
      obtain ⟨hzero, hcanonical⟩ := not_or.1 hbad
      obtain ⟨bs₂, hcolon, h⟩ := bind_eq_ok.1 h
      obtain ⟨⟨targets, bs₃⟩, htargets, h⟩ := bind_eq_ok.1 h
      split_ifs at h with hnew
      cases h
      obtain ⟨ts, hts, rfl, hstarts⟩ := parseTargets_sound htargets
      refine ⟨(uid, ts), ⟨⟨hzero, hts⟩, Bool.eq_false_iff.2 hnew, rfl⟩, ?_⟩
      rw [← not_not.1 hcanonical] at htext
      exact starts_append.2 ⟨bs₁, string_ok htext, starts_append.2 ⟨bs₂,
        (expect_iff bytes_colon).1 hcolon, hstarts⟩⟩
  complete {acc acc' e bs rest} hstep h _ := by
    obtain ⟨⟨hzero, hts⟩, hnew, rfl⟩ := hstep
    obtain ⟨bs₁, htext, h⟩ := starts_append.1 (show Starts ([Token.text (decimal e.1.toNat)] ++
      ([Token.colon] ++ objectTokens (e.2.map targetTokens))) bs rest from h)
    obtain ⟨bs₂, hcolon, htargets⟩ := starts_append.1 h
    refine bind_eq_ok.2 ⟨_, string_of_starts (isText_decimal _) htext, ?_⟩
    dsimp only
    rw [parseU32_decimal]
    dsimp only
    rw [if_neg (by simp [hzero])]
    refine bind_eq_ok.2 ⟨_, (expect_iff bytes_colon).2 hcolon, ?_⟩
    refine bind_eq_ok.2 ⟨_, parseTargets_complete hts htargets, ?_⟩
    exact if_neg (by simp [hnew])

/-- The map of the users of a text. -/
def usersMap (users : UsersText) : ExtTreeMap UInt32 Targets :=
  insertAll ∅ (users.map fun e => (e.1, insertAll ∅ e.2))

theorem parseUsers_sound {map : ExtTreeMap UInt32 Targets}
    (h : parseUsers bs = .ok (map, rest)) : ∃ users, ValidUsers users ∧ map = usersMap users ∧
      Starts (objectTokens (users.map userTokens)) bs rest := by
  obtain ⟨users, hsteps, husers⟩ := parseObject_sound reader_user h
  obtain ⟨hvalid, hnodup, hmap⟩ := steps_insert.1 hsteps
  exact ⟨users, ⟨hnodup, fun e he => (hvalid e he).1⟩, hmap, husers⟩

theorem parseUsers_complete {users : UsersText} (hvalid : ValidUsers users)
    (h : Starts (objectTokens (users.map userTokens)) bs rest) :
    parseUsers bs = .ok (usersMap users, rest) :=
  parseObject_complete reader_user (steps_insert.2 ⟨fun e he => ⟨hvalid.2 e he, by simp⟩,
    hvalid.1, rfl⟩) h

/-- The tokens of a member of a policy: the version, or the users. -/
def memberTokens : Option UsersText → List Token
  | none => versionTokens
  | some users => usersTokens users

/-- A member of a policy is read, which was not there before. -/
def PolicyStep (acc : Bool × Option (ExtTreeMap UInt32 Targets)) :
    Option UsersText → Bool × Option (ExtTreeMap UInt32 Targets) → Prop
  | none, acc' => acc.1 = false ∧ acc' = (true, acc.2)
  | some users, acc' => acc.2 = none ∧ ValidUsers users ∧ acc' = (acc.1, some (usersMap users))

theorem reader_policy : Reader policyItem memberTokens PolicyStep where
  head x := by cases x <;> exact ⟨_, _, rfl⟩
  sound {acc acc' bs rest} h := by
    obtain ⟨⟨key, bs₁⟩, hkey, h⟩ := bind_eq_ok.1 h
    obtain ⟨bs₂, hcolon, h⟩ := bind_eq_ok.1 h
    have hstarts : ∀ tokens, Starts tokens bs₂ rest →
        Starts (.text key :: .colon :: tokens) bs rest := fun tokens h =>
      starts_append.2 ⟨bs₁, string_ok hkey, starts_append.2 ⟨bs₂,
        (expect_iff bytes_colon).1 hcolon, h⟩⟩
    dsimp only at h
    split_ifs at h with hversion husers
    · obtain ⟨⟨n, bs₃⟩, hnumber, h⟩ := bind_eq_ok.1 h
      dsimp only at h
      split_ifs at h with hn
      cases h
      obtain rfl := not_not.1 hn
      obtain ⟨rfl, hseen⟩ := hversion
      exact ⟨none, ⟨hseen, rfl⟩, hstarts _ (number_ok hnumber)⟩
    · obtain ⟨⟨map, bs₃⟩, hmap, h⟩ := bind_eq_ok.1 h
      cases h
      obtain ⟨users, hvalid, rfl, hobject⟩ := parseUsers_sound hmap
      obtain ⟨rfl, hnone⟩ := husers
      exact ⟨some users, ⟨by simpa using hnone, hvalid, rfl⟩, hstarts _ hobject⟩
  complete {acc acc' x bs rest} hstep h hdigit := by
    cases x with
    | none =>
      obtain ⟨hseen, rfl⟩ := hstep
      obtain ⟨bs₁, hkey, h⟩ := starts_append.1
        (show Starts ([Token.text (ascii "version")] ++ ([Token.colon] ++ [Token.one])) bs rest
          from h)
      obtain ⟨bs₂, hcolon, hone⟩ := starts_append.1 h
      refine bind_eq_ok.2 ⟨_, string_of_starts isText_ascii.1 hkey, ?_⟩
      refine bind_eq_ok.2 ⟨_, (expect_iff bytes_colon).2 hcolon, ?_⟩
      rw [if_pos ⟨rfl, hseen⟩]
      exact bind_eq_ok.2 ⟨_, number_of_starts hone hdigit, rfl⟩
    | some users =>
      obtain ⟨hnone, hvalid, rfl⟩ := hstep
      obtain ⟨bs₁, hkey, h⟩ := starts_append.1 (show Starts ([Token.text (ascii "users")] ++
        ([Token.colon] ++ objectTokens (users.map userTokens))) bs rest from h)
      obtain ⟨bs₂, hcolon, husers⟩ := starts_append.1 h
      refine bind_eq_ok.2 ⟨_, string_of_starts isText_ascii.2 hkey, ?_⟩
      refine bind_eq_ok.2 ⟨_, (expect_iff bytes_colon).2 hcolon, ?_⟩
      rw [if_neg (fun h => absurd h.1 (by decide)), if_pos ⟨rfl, by simp [hnone]⟩]
      exact bind_eq_ok.2 ⟨_, parseUsers_complete hvalid husers, rfl⟩

/-- Both members of a policy are read, in one order or the other. -/
theorem steps_policy {xs : List (Option UsersText)} {map : ExtTreeMap UInt32 Targets} :
    Steps PolicyStep (false, none) xs (true, some map) ↔ ∃ users, ValidUsers users ∧
      map = usersMap users ∧ (xs = [none, some users] ∨ xs = [some users, none]) := by
  -- nothing is read once both are there
  have hend : ∀ {m : ExtTreeMap UInt32 Targets} {xs acc}, Steps PolicyStep (true, some m) xs acc →
      xs = [] ∧ acc = (true, some m) := by
    rintro m xs acc (_ | @⟨_, _, _, x, _, hstep, _⟩)
    · exact ⟨rfl, rfl⟩
    · cases x with
      | none => cases hstep.1
      | some users => cases hstep.1
  constructor
  · rintro (_ | @⟨_, _, _, x, _, hstep, hsteps⟩)
    cases x with
    | none =>
      obtain ⟨-, rfl⟩ := hstep
      rcases hsteps with _ | @⟨_, _, _, y, _, hstep, hsteps⟩
      cases y with
      | none => cases hstep.1
      | some users =>
        obtain ⟨-, hvalid, rfl⟩ := hstep
        obtain ⟨rfl, hmap⟩ := hend hsteps
        cases hmap
        exact ⟨users, hvalid, rfl, .inl rfl⟩
    | some users =>
      obtain ⟨-, hvalid, rfl⟩ := hstep
      rcases hsteps with _ | @⟨_, _, _, y, _, hstep, hsteps⟩
      cases y with
      | none =>
        obtain ⟨-, rfl⟩ := hstep
        obtain ⟨rfl, hmap⟩ := hend hsteps
        cases hmap
        exact ⟨users, hvalid, rfl, .inr rfl⟩
      | some users' => cases hstep.1
  · rintro ⟨users, hvalid, rfl, rfl | rfl⟩
    · exact .cons ⟨rfl, rfl⟩ (.cons ⟨rfl, hvalid, rfl⟩ (.nil _))
    · exact .cons ⟨rfl, hvalid, rfl⟩ (.cons ⟨rfl, rfl⟩ (.nil _))

theorem parsePolicy_iff {p : AuthPolicy} : parsePolicy bs = .ok (p, rest) ↔
    ∃ versionFirst users, ValidUsers users ∧ p = ⟨usersMap users⟩ ∧
      Starts (policyTokens versionFirst users) bs rest := by
  constructor
  · intro h
    obtain ⟨⟨seen, bs₁⟩, hobject, h⟩ := bind_eq_ok.1 h
    obtain ⟨version, map⟩ := seen
    cases version <;> cases map <;> try cases h
    obtain ⟨xs, hsteps, hxs⟩ := parseObject_sound reader_policy hobject
    obtain ⟨users, hvalid, rfl, rfl | rfl⟩ := steps_policy.1 hsteps
    · exact ⟨true, users, hvalid, rfl, hxs⟩
    · exact ⟨false, users, hvalid, rfl, hxs⟩
  · rintro ⟨versionFirst, users, hvalid, rfl, h⟩
    have hobject : parseObject policyItem (false, none) bs =
        .ok ((true, some (usersMap users)), rest) := by
      cases versionFirst with
      | true =>
        exact parseObject_complete reader_policy
          (steps_policy.2 ⟨users, hvalid, rfl, .inl rfl⟩) h
      | false =>
        exact parseObject_complete reader_policy
          (steps_policy.2 ⟨users, hvalid, rfl, .inr rfl⟩) h
    exact bind_eq_ok.2 ⟨_, hobject, rfl⟩

theorem denotes_iff {users : UsersText} (hvalid : ValidUsers users) {p : AuthPolicy} :
    Denotes users p ↔ p = ⟨usersMap users⟩ := by
  have hkeys : ((users.map fun e => (e.1, (insertAll ∅ e.2 : Targets))).map Prod.fst).Nodup := by
    rw [List.map_map]
    exact hvalid.1
  have huser : ∀ uid map, (usersMap users)[uid]? = some map ↔
      ∃ targets, (uid, targets) ∈ users ∧ map = insertAll ∅ targets := by
    intro uid map
    rw [usersMap, getElem?_insertAll_iff hkeys, List.mem_map]
    constructor
    · rintro ⟨e, he, heq⟩
      cases heq
      exact ⟨e.2, he, rfl⟩
    · rintro ⟨targets, he, rfl⟩
      exact ⟨(uid, targets), he, rfl⟩
  have htarget : ∀ uid targets, (uid, targets) ∈ users → ∀ target mode,
      (insertAll ∅ targets : Targets)[target]? = some mode ↔ (target, mode) ∈ targets :=
    fun uid targets he => getElem?_insertAll_iff (hvalid.2 _ he).2.1
  constructor
  · rintro ⟨hcontains, hentries⟩
    obtain ⟨map⟩ := p
    congr
    refine ExtTreeMap.ext_getElem? fun uid => ?_
    have hin := hcontains uid
    rw [ExtTreeMap.contains_eq_isSome_getElem?] at hin
    cases hmap : map[uid]? with
    | none =>
      symm
      rw [Option.eq_none_iff_forall_ne_some]
      intro m hm
      obtain ⟨targets, he, -⟩ := (huser uid m).1 hm
      rw [hmap] at hin
      cases hin.2 ⟨targets, he⟩
    | some m =>
      rw [hmap] at hin
      obtain ⟨targets, he⟩ := hin.1 rfl
      have hm : m = insertAll ∅ targets := by
        refine ExtTreeMap.ext_getElem? fun target => Option.ext fun mode => ?_
        rw [hentries uid targets he m hmap target mode, htarget uid targets he]
      rw [hm, (huser uid _).2 ⟨targets, he, rfl⟩]
  · rintro rfl
    refine ⟨fun uid => ?_, fun uid targets he map hmap target mode => ?_⟩
    · rw [ExtTreeMap.contains_eq_isSome_getElem?, Option.isSome_iff_exists]
      constructor
      · rintro ⟨map, hmap⟩
        obtain ⟨targets, he, -⟩ := (huser uid map).1 hmap
        exact ⟨targets, he⟩
      · rintro ⟨targets, he⟩
        exact ⟨_, (huser uid _).2 ⟨targets, he, rfl⟩⟩
    · obtain rfl : insertAll ∅ targets = map :=
        Option.some.inj (((huser uid _).2 ⟨targets, he, rfl⟩).symm.trans hmap)
      exact htarget uid targets he target mode

/-- The parser accepts the texts of the language, and returns what they denote. -/
theorem parseJson_iff (bs : List UInt8) (p : AuthPolicy) :
    AuthPolicy.parseJson bs = .ok p ↔
      (∀ b ∈ bs, b < 128) ∧ bs.length ≤ maxPolicyBytes ∧
      ∃ versionFirst users, ValidUsers users ∧ Spaced (policyTokens versionFirst users) bs ∧
        Denotes users p := by
  have hascii : bs.all (· < 128) = true ↔ ∀ b ∈ bs, b < 128 := by
    rw [List.all_eq_true]
    simp only [decide_eq_true_eq]
  unfold AuthPolicy.parseJson
  by_cases hbad : (decide (bs.length > maxPolicyBytes) || !bs.all (· < 128)) = true
  · rw [if_pos hbad]
    refine ⟨fun h => (by cases h), fun ⟨hbytes, hsize, _⟩ => ?_⟩
    rw [hascii.2 hbytes] at hbad
    simp only [gt_iff_lt, Bool.not_true, Bool.or_false, decide_eq_true_eq] at hbad
    omega
  · rw [if_neg hbad]
    simp only [gt_iff_lt, Bool.or_eq_true, decide_eq_true_eq, Bool.not_eq_true', not_or, Nat.not_lt,
      Bool.not_eq_false] at hbad
    constructor
    · intro h
      obtain ⟨⟨policy, rest⟩, hpolicy, h⟩ := bind_eq_ok.1 h
      dsimp only at h
      split_ifs at h with hrest
      cases h
      obtain ⟨versionFirst, users, hvalid, hp, hstarts⟩ := parsePolicy_iff.1 hpolicy
      exact ⟨hascii.1 hbad.2, hbad.1, versionFirst, users, hvalid,
        ⟨rest, hstarts, skipWhitespace_eq_nil.1 hrest⟩, (denotes_iff hvalid).2 hp⟩
    · rintro ⟨-, -, versionFirst, users, hvalid, ⟨rest, hstarts, hwhite⟩, hdenotes⟩
      have hp := (denotes_iff hvalid).1 hdenotes
      refine bind_eq_ok.2 ⟨_, parsePolicy_iff.2 ⟨versionFirst, users, hvalid, hp, hstarts⟩, ?_⟩
      exact if_pos (skipWhitespace_eq_nil.2 hwhite)

end PolicyGrammar

end KFaceAuth
