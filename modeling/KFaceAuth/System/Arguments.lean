import KFaceAuth.System.Scope

/-!
# Arguments of the privileged helper

The helper that synchronises a profile runs as root for the user that
authorised it, and reads from its arguments what to do (`parse_args`). Options
may stand in any order, and an option that has a value takes the next argument,
whatever it is.

* `parseArgs_iff`: which arguments are accepted, and for what;
* `parseArgs_laws`: the target is the user in `PKEXEC_UID`; the order of the
  options does not matter; and no option may be repeated, and no other argument
  be added.
-/

namespace KFaceAuth

namespace SyncVault

/-- What `parse_args` has read so far. -/
structure Arguments where
  enableTarget : Option (List UInt8) := none
  disableTarget : Option (List UInt8) := none
  deleteProfile : Bool := false
  resyncProfile : Bool := false
  requestedMode : Option (List UInt8) := none
  requestedUid : Option (List UInt8) := none

structure Options where
  targetUid : UInt32
  operation : Operation

/-- `parse_pkexec_uid` -/
def parsePkexecUid (value requestedUid : Option (List UInt8)) : Except Unit UInt32 :=
  match value with
  | none => .error ()
  | some value =>
    if value.isEmpty || !value.all PolicyParser.isAsciiDigit then .error ()
    else
      match PolicyParser.parseU32 value with
      | none => .error ()
      | some pkexecUid =>
        if pkexecUid = 0 ∨ decimal pkexecUid.toNat ≠ value then .error ()
        else
          match requestedUid with
          | none => .ok pkexecUid
          | some requested =>
            if PolicyParser.parseU32 requested ≠ some pkexecUid ∨
                requested ≠ decimal pkexecUid.toNat then .error ()
            else .ok pkexecUid

/-- `parse_target` -/
def parseTarget (value : List UInt8) : Except Unit AuthTarget :=
  if value = ascii "sddm" then .ok .sddm
  else if value = ascii "plasma-lock" then .ok .plasmaLock
  else .error ()

/-- The mode of `--enable-target` in `parse_args`. -/
def parseMode (value : List UInt8) : Except Unit AuthPolicyMode :=
  if value = ascii "off" then .ok .off
  else if value = ascii "on-activity" then .ok .onActivity
  else if value = ascii "manual" then .ok .manual
  else .error ()

/-- The loop of `parse_args`; it ends with `none` where help is asked for. -/
def scan : Arguments → List (List UInt8) → Except Unit (Option Arguments)
  | a, [] => .ok (some a)
  | a, arg :: args =>
    if arg = ascii "--enable-target" ∧ a.enableTarget = none then
      match args with
      | [] => .error ()
      | value :: args => scan { a with enableTarget := some value } args
    else if arg = ascii "--disable-target" ∧ a.disableTarget = none then
      match args with
      | [] => .error ()
      | value :: args => scan { a with disableTarget := some value } args
    else if arg = ascii "--delete-profile" ∧ a.deleteProfile = false then
      scan { a with deleteProfile := true } args
    else if arg = ascii "--resync-profile" ∧ a.resyncProfile = false then
      scan { a with resyncProfile := true } args
    else if arg = ascii "--mode" ∧ a.requestedMode = none then
      match args with
      | [] => .error ()
      | value :: args => scan { a with requestedMode := some value } args
    else if arg = ascii "--uid" ∧ a.requestedUid = none then
      match args with
      | [] => .error ()
      | value :: args => scan { a with requestedUid := some value } args
    else if arg = ascii "--help" ∨ arg = ascii "-h" then .ok none
    else .error ()

/-- The operation that was asked for. -/
def operation (a : Arguments) : Except Unit Operation :=
  let operations := a.enableTarget.isSome.toNat + a.disableTarget.isSome.toNat +
    a.deleteProfile.toNat + a.resyncProfile.toNat
  if operations ≠ 1 then .error ()
  else
    match a.enableTarget with
    | some target => do
      let target ← parseTarget target
      let mode ← parseMode (a.requestedMode.getD (ascii "on-activity"))
      return .enable target mode
    | none =>
      match a.disableTarget with
      | some target =>
        if a.requestedMode.isSome then .error ()
        else do
          let target ← parseTarget target
          return .disable target
      | none =>
        if a.resyncProfile then
          if a.requestedMode.isSome || a.requestedUid.isSome then .error ()
          else .ok .resyncProfile
        else if a.requestedMode.isSome then .error ()
        else if a.requestedUid.isNone then .error ()
        else .ok .deleteProfile

/-- `parse_args` -/
def parseArgs (arguments : List (List UInt8)) (pkexecUid : Option (List UInt8)) :
    Except Unit (Option Options) := do
  match ← scan {} arguments with
  | none => return none
  | some a =>
    let operation ← operation a
    let targetUid ← parsePkexecUid pkexecUid a.requestedUid
    return some { targetUid, operation }

/-! ## Option groups -/

/-- An option, with its value. -/
inductive Flag
  | enableTarget (value : List UInt8)
  | disableTarget (value : List UInt8)
  | deleteProfile
  | resyncProfile
  | mode (value : List UInt8)
  | uid (value : List UInt8)
  deriving DecidableEq

namespace Flag

def option : Flag → List UInt8
  | enableTarget _ => ascii "--enable-target"
  | disableTarget _ => ascii "--disable-target"
  | deleteProfile => ascii "--delete-profile"
  | resyncProfile => ascii "--resync-profile"
  | mode _ => ascii "--mode"
  | uid _ => ascii "--uid"

/-- The values of an option: one or none. -/
def values : Flag → List (List UInt8)
  | enableTarget value | disableTarget value | mode value | uid value => [value]
  | deleteProfile | resyncProfile => []

/-- The arguments of a group. -/
def args (g : Flag) : List (List UInt8) := g.option :: g.values

/-- What is read of a group. -/
def set (a : Arguments) : Flag → Arguments
  | enableTarget value => { a with enableTarget := some value }
  | disableTarget value => { a with disableTarget := some value }
  | deleteProfile => { a with deleteProfile := true }
  | resyncProfile => { a with resyncProfile := true }
  | mode value => { a with requestedMode := some value }
  | uid value => { a with requestedUid := some value }

/-- The option was read before. -/
def seen (a : Arguments) : Flag → Bool
  | enableTarget _ => a.enableTarget.isSome
  | disableTarget _ => a.disableTarget.isSome
  | deleteProfile => a.deleteProfile
  | resyncProfile => a.resyncProfile
  | mode _ => a.requestedMode.isSome
  | uid _ => a.requestedUid.isSome

end Flag

/-- The options that are known. -/
def knownOptions : List (List UInt8) :=
  [ascii "--enable-target", ascii "--disable-target", ascii "--delete-profile",
    ascii "--resync-profile", ascii "--mode", ascii "--uid"]

def helpFlags : List (List UInt8) := [ascii "--help", ascii "-h"]

/-- The groups that were read. -/
def Arguments.groups (a : Arguments) : List Flag :=
  (a.enableTarget.map Flag.enableTarget).toList ++
    ((a.disableTarget.map Flag.disableTarget).toList ++
      ((if a.deleteProfile then [Flag.deleteProfile] else []) ++
        ((if a.resyncProfile then [Flag.resyncProfile] else []) ++
          ((a.requestedMode.map Flag.mode).toList ++ (a.requestedUid.map Flag.uid).toList))))

/-- The groups ask for the operation, for the user with the text `uid`. -/
def Requests (operation : Operation) (uid : List UInt8) (groups : List Flag) : Prop :=
  match operation with
  | .enable target mode => ∃ modes uids,
    groups.Perm (.enableTarget target.key :: (modes ++ uids)) ∧
    (modes = [] ∧ mode = .onActivity ∨ modes = [.mode mode.asStr]) ∧
    (uids = [] ∨ uids = [.uid uid])
  | .disable target => ∃ uids, groups.Perm (.disableTarget target.key :: uids) ∧
    (uids = [] ∨ uids = [.uid uid])
  | .deleteProfile => groups.Perm [.deleteProfile, .uid uid]
  | .resyncProfile => groups = [.resyncProfile]

/-! ## Reading the groups -/

variable {a : Arguments} {args rest : List (List UInt8)}

theorem scan_args {g : Flag} (h : g.seen a = false) :
    scan a (g.args ++ rest) = scan (g.set a) rest := by
  rw [Flag.args, List.cons_append, scan.eq_def]
  cases g <;> simp_all +decide [Flag.option, Flag.values, Flag.set, Flag.seen]

theorem scan_seen {g : Flag} (h : g.seen a = true) (rest : List (List UInt8)) :
    scan a (g.option :: rest) = .error () := by
  rw [scan.eq_def]
  cases g <;> simp_all +decide [Flag.option, Flag.seen, Option.isSome_iff_ne_none]

theorem scan_unknown {arg : List UInt8} (hknown : arg ∉ knownOptions) (hhelp : arg ∉ helpFlags)
    (rest : List (List UInt8)) : scan a (arg :: rest) = .error () := by
  rw [scan.eq_def]
  simp_all [knownOptions, helpFlags]

/-- The loop goes on with one more group, or ends. -/
theorem scan_cases {arg : List UInt8} {a' : Arguments} (h : scan a (arg :: args) = .ok (some a')) :
    ∃ (g : Flag) (rest : List (List UInt8)), g.seen a = false ∧ arg :: args = g.args ++ rest := by
  rw [scan.eq_def] at h
  dsimp only at h
  split_ifs at h with h₁ h₂ h₃ h₄ h₅ h₆
  · cases args with
    | nil => cases h
    | cons value args =>
      exact ⟨.enableTarget value, args, by simp [Flag.seen, h₁.2], by rw [h₁.1]; rfl⟩
  · cases args with
    | nil => cases h
    | cons value args =>
      exact ⟨.disableTarget value, args, by simp [Flag.seen, h₂.2], by rw [h₂.1]; rfl⟩
  · exact ⟨.deleteProfile, args, h₃.2, by rw [h₃.1]; rfl⟩
  · exact ⟨.resyncProfile, args, h₄.2, by rw [h₄.1]; rfl⟩
  · cases args with
    | nil => cases h
    | cons value args => exact ⟨.mode value, args, by simp [Flag.seen, h₅.2], by rw [h₅.1]; rfl⟩
  · cases args with
    | nil => cases h
    | cons value args => exact ⟨.uid value, args, by simp [Flag.seen, h₆.2], by rw [h₆.1]; rfl⟩
  · cases h

theorem seen_set (g g' : Flag) :
    g'.seen (g.set a) = (g'.seen a || decide (g'.option = g.option)) := by
  cases g <;> cases g' <;> simp +decide [Flag.seen, Flag.set, Flag.option]

theorem perm_behind {g : Flag} {l l' : List Flag} (k : List Flag) (h : l'.Perm (g :: l)) :
    (k ++ l').Perm (g :: (k ++ l)) :=
  (h.append_left k).trans List.perm_middle

theorem groups_set {g : Flag} (h : g.seen a = false) : (g.set a).groups.Perm (g :: a.groups) := by
  obtain ⟨e, d, del, res, m, u⟩ := a
  cases g with
  | enableTarget value =>
    obtain rfl : e = none := by simpa [Flag.seen] using h
    exact .refl _
  | disableTarget value =>
    obtain rfl : d = none := by simpa [Flag.seen] using h
    exact perm_behind _ (.refl _)
  | deleteProfile =>
    obtain rfl : del = false := h
    exact perm_behind _ (perm_behind _ (.refl _))
  | resyncProfile =>
    obtain rfl : res = false := h
    exact perm_behind _ (perm_behind _ (perm_behind _ (.refl _)))
  | mode value =>
    obtain rfl : m = none := by simpa [Flag.seen] using h
    exact perm_behind _ (perm_behind _ (perm_behind _ (perm_behind _ (.refl _))))
  | uid value =>
    obtain rfl : u = none := by simpa [Flag.seen] using h
    exact perm_behind _ (perm_behind _ (perm_behind _ (perm_behind _ (perm_behind _ (.refl _)))))

/-- The options of the groups differ. -/
def Distinct (groups : List Flag) : Prop := groups.Pairwise fun g g' => g.option ≠ g'.option

/-- What the loop does with groups of which no option was read before. -/
theorem scan_groups {groups : List Flag} (hdistinct : Distinct groups)
    (hfresh : ∀ g ∈ groups, g.seen a = false) : ∃ a', a'.groups.Perm (groups ++ a.groups) ∧
      ∀ rest, scan a (groups.flatMap Flag.args ++ rest) = scan a' rest := by
  induction groups generalizing a with
  | nil => exact ⟨a, .refl _, fun rest => rfl⟩
  | cons g groups ih =>
    obtain ⟨hne, hdistinct⟩ := List.pairwise_cons.1 hdistinct
    have hg : g.seen a = false := hfresh g List.mem_cons_self
    have hfresh' : ∀ g' ∈ groups, g'.seen (g.set a) = false := by
      intro g' hg'
      rw [seen_set, hfresh g' (List.mem_cons_of_mem _ hg'), Bool.false_or,
        decide_eq_false (hne g' hg').symm]
    obtain ⟨a', hperm, hscan⟩ := ih hdistinct hfresh'
    refine ⟨a', hperm.trans (perm_behind _ (groups_set hg)), fun rest => ?_⟩
    rw [List.flatMap_cons, List.append_assoc, scan_args hg, hscan]

/-- What the loop accepts are groups. -/
theorem scan_some {a' : Arguments} (h : scan a args = .ok (some a')) :
    ∃ groups : List Flag, args = groups.flatMap Flag.args ∧ Distinct groups ∧
      ∀ g ∈ groups, g.seen a = false := by
  induction hn : args.length using Nat.strong_induction_on generalizing a args with
  | _ n ih =>
    cases args with
    | nil => exact ⟨[], rfl, .nil, by simp⟩
    | cons arg args =>
      obtain ⟨g, rest, hg, hargs⟩ := scan_cases h
      rw [hargs, scan_args hg] at h
      have hlt : rest.length < n := by
        rw [← hn, hargs, Flag.args, List.cons_append, List.length_cons, List.length_append]
        omega
      obtain ⟨groups, rfl, hdistinct, hfresh⟩ := ih _ hlt h rfl
      have hg' : ∀ g' ∈ groups, g'.seen a = false ∧ g'.option ≠ g.option := by
        intro g' hg'
        have := hfresh g' hg'
        rw [seen_set, Bool.or_eq_false_iff, decide_eq_false_iff_not] at this
        exact this
      refine ⟨g :: groups, hargs, List.pairwise_cons.2 ⟨fun g' h' => (hg' g' h').2.symm, hdistinct⟩,
        ?_⟩
      rintro g' (_ | ⟨_, h'⟩)
      · exact hg
      · exact (hg' g' h').1

/-- The groups that arguments consist of are told by the arguments. -/
theorem flatMap_args_inj {groups groups' : List Flag}
    (h : groups.flatMap Flag.args = groups'.flatMap Flag.args) : groups = groups' := by
  induction groups generalizing groups' with
  | nil =>
    cases groups' with
    | nil => rfl
    | cons g groups' => cases h
  | cons g groups ih =>
    cases groups' with
    | nil => cases h
    | cons g' groups' =>
      have hg : g = g' ∧ groups.flatMap Flag.args = groups'.flatMap Flag.args := by
        rw [List.flatMap_cons, List.flatMap_cons] at h
        cases g <;> cases g' <;>
          simp_all +decide [Flag.args, Flag.option, Flag.values]
      rw [hg.1, ih hg.2]

/-! ## The operation -/

theorem mem_groups (g : Flag) : g ∈ a.groups ↔ match g with
    | .enableTarget value => a.enableTarget = some value
    | .disableTarget value => a.disableTarget = some value
    | .deleteProfile => a.deleteProfile = true
    | .resyncProfile => a.resyncProfile = true
    | .mode value => a.requestedMode = some value
    | .uid value => a.requestedUid = some value := by
  cases g <;> simp [Arguments.groups]

/-- What was read is told by the groups. -/
theorem groups_inj {a' : Arguments} (h : a.groups.Perm a'.groups) : a = a' := by
  have hmem : ∀ g, g ∈ a.groups ↔ g ∈ a'.groups := fun g => h.mem_iff
  obtain ⟨e, d, del, res, m, u⟩ := a
  obtain ⟨e', d', del', res', m', u'⟩ := a'
  have he : e = e' := Option.ext fun v => by simpa [mem_groups] using hmem (.enableTarget v)
  have hd : d = d' := Option.ext fun v => by simpa [mem_groups] using hmem (.disableTarget v)
  have hdel : del = del' := Bool.eq_iff_iff.2 (by simpa [mem_groups] using hmem .deleteProfile)
  have hres : res = res' := Bool.eq_iff_iff.2 (by simpa [mem_groups] using hmem .resyncProfile)
  have hm : m = m' := Option.ext fun v => by simpa [mem_groups] using hmem (.mode v)
  have hu : u = u' := Option.ext fun v => by simpa [mem_groups] using hmem (.uid v)
  rw [he, hd, hdel, hres, hm, hu]

theorem parseTarget_iff {value : List UInt8} {target : AuthTarget} :
    parseTarget value = .ok target ↔ value = target.key := by
  unfold parseTarget
  split_ifs with h₁ h₂
  · cases target <;> simp +decide [AuthTarget.key, h₁]
  · cases target <;> simp +decide [AuthTarget.key, h₂]
  · cases target <;> simp [AuthTarget.key, h₁, h₂]

theorem parseMode_iff {value : List UInt8} {mode : AuthPolicyMode} :
    parseMode value = .ok mode ↔ value = mode.asStr := by
  unfold parseMode
  split_ifs with h₁ h₂ h₃
  · cases mode <;> simp +decide [AuthPolicyMode.asStr, h₁]
  · cases mode <;> simp +decide [AuthPolicyMode.asStr, h₂]
  · cases mode <;> simp +decide [AuthPolicyMode.asStr, h₃]
  · cases mode <;> simp [AuthPolicyMode.asStr, h₁, h₂, h₃]

theorem parsePkexecUid_iff {value requestedUid : Option (List UInt8)} {uid : UInt32} :
    parsePkexecUid value requestedUid = .ok uid ↔ uid ≠ 0 ∧ value = some (decimal uid.toNat) ∧
      ∀ requested, requestedUid = some requested → requested = decimal uid.toNat := by
  have hdigits : (decimal uid.toNat).isEmpty = false ∧
      (decimal uid.toNat).all PolicyParser.isAsciiDigit = true :=
    ⟨by simp [PolicyParser.decimal_ne_nil], List.all_eq_true.2 fun b hb =>
      isAsciiDigit_of_mem_decimal hb⟩
  constructor
  · intro h
    unfold parsePkexecUid at h
    cases value with
    | none => cases h
    | some value =>
      dsimp only at h
      split_ifs at h
      cases hparse : PolicyParser.parseU32 value with
      | none => rw [hparse] at h; cases h
      | some pkexecUid =>
        rw [hparse] at h
        dsimp only at h
        split_ifs at h with hcanonical
        obtain ⟨hzero, htext⟩ := not_or.1 hcanonical
        cases requestedUid with
        | none =>
          cases h
          exact ⟨hzero, by rw [not_not.1 htext], fun _ h => by cases h⟩
        | some requested =>
          dsimp only at h
          split_ifs at h with hrequested
          cases h
          refine ⟨hzero, by rw [not_not.1 htext], fun _ h => ?_⟩
          cases h
          exact not_not.1 (not_or.1 hrequested).2
  · rintro ⟨hzero, rfl, hrequested⟩
    unfold parsePkexecUid
    cases requestedUid with
    | none => simp [hdigits, PolicyParser.parseU32_decimal, hzero]
    | some requested =>
      obtain rfl := hrequested requested rfl
      simp [hdigits, PolicyParser.parseU32_decimal, hzero]

/-- What was read when an operation is asked for. -/
def Read (o : Operation) (a : Arguments) : Prop :=
  match o with
  | .enable target mode => ∃ m u, a = ⟨some target.key, none, false, false, m, u⟩ ∧
    (m = none ∧ mode = .onActivity ∨ m = some mode.asStr)
  | .disable target => ∃ u, a = ⟨none, some target.key, false, false, none, u⟩
  | .deleteProfile => ∃ u, a = ⟨none, none, true, false, none, some u⟩
  | .resyncProfile => a = ⟨none, none, false, true, none, none⟩

theorem read_of_operation {o : Operation} (h : operation a = .ok o) : Read o a := by
  obtain ⟨e, d, del, res, m, u⟩ := a
  have hone : e.isSome.toNat + d.isSome.toNat + del.toNat + res.toNat = 1 := by
    by_contra hne
    rw [operation, if_pos hne] at h
    cases h
  rw [operation, if_neg (not_not.2 hone)] at h
  cases e with
  | some e =>
    obtain ⟨rfl, rfl, rfl⟩ : d = none ∧ del = false ∧ res = false := by
      cases d <;> cases del <;> cases res <;> simp_all
    obtain ⟨target, htarget, h⟩ := bind_eq_ok.1 h
    obtain ⟨mode, hmode, h⟩ := bind_eq_ok.1 h
    cases h
    obtain rfl := parseTarget_iff.1 htarget
    have hmode := parseMode_iff.1 hmode
    refine ⟨m, u, rfl, ?_⟩
    cases m with
    | none =>
      left
      refine ⟨rfl, ?_⟩
      cases mode <;> simp_all +decide
    | some m => exact .inr (congrArg some hmode)
  | none =>
    cases d with
    | some d =>
      obtain ⟨rfl, rfl⟩ : del = false ∧ res = false := by
        cases del <;> cases res <;> simp_all
      dsimp only at h
      split_ifs at h with hm
      obtain rfl : m = none := by simpa using hm
      obtain ⟨target, htarget, h⟩ := bind_eq_ok.1 h
      cases h
      obtain rfl := parseTarget_iff.1 htarget
      exact ⟨u, rfl⟩
    | none =>
      dsimp only at h
      split_ifs at h with hres hmu hm hu
      · cases h
        obtain rfl : del = false := by cases del <;> simp_all
        obtain ⟨rfl, rfl⟩ : m = none ∧ u = none := by simpa using hmu
        rw [hres]
        rfl
      · cases h
        obtain rfl : res = false := by simpa using hres
        obtain rfl : del = true := by cases del <;> simp_all
        obtain rfl : m = none := by simpa using hm
        cases u with
        | none => simp at hu
        | some u => exact ⟨u, rfl⟩

theorem operation_of_read {o : Operation} (h : Read o a) : operation a = .ok o := by
  cases o with
  | enable target mode =>
    obtain ⟨m, u, rfl, hmode⟩ := h
    have hparse : parseMode (m.getD (ascii "on-activity")) = .ok mode := by
      rw [parseMode_iff]
      rcases hmode with ⟨rfl, rfl⟩ | rfl <;> rfl
    simp [operation, parseTarget_iff.2 rfl, hparse]
    rfl
  | disable target =>
    obtain ⟨u, rfl⟩ := h
    simp [operation, parseTarget_iff.2 rfl]
  | deleteProfile =>
    obtain ⟨u, rfl⟩ := h
    rfl
  | resyncProfile =>
    obtain rfl := h
    rfl

theorem requests_of_read {o : Operation} {uid : List UInt8} (h : Read o a)
    (huid : ∀ requested, a.requestedUid = some requested → requested = uid) :
    Requests o uid a.groups := by
  have huids : (a.requestedUid.map Flag.uid).toList = [] ∨
      (a.requestedUid.map Flag.uid).toList = [.uid uid] := by
    cases hu : a.requestedUid with
    | none => exact .inl rfl
    | some u => exact .inr (by rw [huid u hu]; rfl)
  cases o with
  | enable target mode =>
    obtain ⟨m, u, rfl, hmode⟩ := h
    refine ⟨(m.map Flag.mode).toList, (u.map Flag.uid).toList, .refl _, ?_, huids⟩
    rcases hmode with ⟨rfl, hmode⟩ | rfl
    · exact .inl ⟨rfl, hmode⟩
    · exact .inr rfl
  | disable target =>
    obtain ⟨u, rfl⟩ := h
    exact ⟨(u.map Flag.uid).toList, .refl _, huids⟩
  | deleteProfile =>
    obtain ⟨u, rfl⟩ := h
    rw [← huid u rfl]
    exact .refl _
  | resyncProfile =>
    obtain rfl := h
    rfl

theorem read_of_requests {o : Operation} {uid : List UInt8} {groups : List Flag}
    (h : Requests o uid groups) : ∃ a, Read o a ∧ groups.Perm a.groups ∧
      ∀ requested, a.requestedUid = some requested → requested = uid := by
  -- at most one value, which is that of the user
  have huids : ∀ uids : List Flag, uids = [] ∨ uids = [.uid uid] → ∃ u : Option (List UInt8),
      uids = (u.map Flag.uid).toList ∧ ∀ requested, u = some requested → requested = uid := by
    rintro uids (rfl | rfl)
    · exact ⟨none, rfl, fun _ h => by cases h⟩
    · exact ⟨some uid, rfl, fun _ h => by cases h; rfl⟩
  cases o with
  | enable target mode =>
    obtain ⟨modes, uids, hperm, hmodes, huids'⟩ := h
    obtain ⟨u, rfl, hu⟩ := huids uids huids'
    rcases hmodes with ⟨rfl, hmode⟩ | rfl
    · exact ⟨⟨some target.key, none, false, false, none, u⟩, ⟨none, u, rfl, .inl ⟨rfl, hmode⟩⟩,
        hperm, hu⟩
    · exact ⟨⟨some target.key, none, false, false, some mode.asStr, u⟩,
        ⟨some mode.asStr, u, rfl, .inr rfl⟩, hperm, hu⟩
  | disable target =>
    obtain ⟨uids, hperm, huids'⟩ := h
    obtain ⟨u, rfl, hu⟩ := huids uids huids'
    exact ⟨⟨none, some target.key, false, false, none, u⟩, ⟨u, rfl⟩, hperm, hu⟩
  | deleteProfile =>
    exact ⟨⟨none, none, true, false, none, some uid⟩, ⟨uid, rfl⟩, h, fun _ h => by cases h; rfl⟩
  | resyncProfile =>
    obtain rfl := h
    exact ⟨⟨none, none, false, true, none, none⟩, rfl, .refl _, fun _ h => by cases h⟩

/-! ## All arguments -/

theorem Distinct.perm {groups groups' : List Flag} (h : Distinct groups)
    (hperm : groups.Perm groups') : Distinct groups' :=
  (hperm.pairwise_iff fun h => h.symm).1 h

theorem distinct_groups (a : Arguments) : Distinct a.groups := by
  obtain ⟨e, d, del, res, m, u⟩ := a
  unfold Distinct
  cases e <;> cases d <;> cases del <;> cases res <;> cases m <;> cases u <;>
    simp +decide [Arguments.groups, Flag.option]

/-- The loop reads groups that are those of `a`, in any order, as `a`. -/
theorem scan_of_perm {groups : List Flag} (h : groups.Perm a.groups) :
    ∀ rest, scan {} (groups.flatMap Flag.args ++ rest) = scan a rest := by
  obtain ⟨a', hperm, hscan⟩ := scan_groups (a := {}) ((distinct_groups a).perm h.symm)
    fun g _ => by cases g <;> rfl
  have : a' = a := groups_inj (hperm.trans (by simpa [Arguments.groups] using h))
  rwa [this] at hscan

theorem Requests.perm {o : Operation} {uid : List UInt8} {groups groups' : List Flag}
    (h : Requests o uid groups) (hperm : groups.Perm groups') : Requests o uid groups' := by
  cases o with
  | enable target mode =>
    obtain ⟨modes, uids, hgroups, h⟩ := h
    exact ⟨modes, uids, hperm.symm.trans hgroups, h⟩
  | disable target =>
    obtain ⟨uids, hgroups, h⟩ := h
    exact ⟨uids, hperm.symm.trans hgroups, h⟩
  | deleteProfile => exact hperm.symm.trans h
  | resyncProfile =>
    obtain rfl := h
    exact List.perm_singleton.1 hperm.symm

variable {pkexecUid : Option (List UInt8)} {options : Options}

/-- What is read of arguments that are accepted. -/
theorem parseArgs_some (h : parseArgs args pkexecUid = .ok (some options)) :
    ∃ a, operation a = .ok options.operation ∧
      parsePkexecUid pkexecUid a.requestedUid = .ok options.targetUid ∧
      ∃ groups : List Flag, args = groups.flatMap Flag.args ∧ groups.Perm a.groups := by
  obtain ⟨read, hscan, h⟩ := bind_eq_ok.1 h
  cases read with
  | none => cases h
  | some a =>
    obtain ⟨o, ho, h⟩ := bind_eq_ok.1 h
    obtain ⟨uid, huid, h⟩ := bind_eq_ok.1 h
    cases h
    obtain ⟨groups, rfl, hdistinct, hfresh⟩ := scan_some hscan
    obtain ⟨a', hperm, hscan'⟩ := scan_groups hdistinct hfresh
    have hsame : a' = a := by
      have := hscan' []
      rw [List.append_nil, hscan, scan] at this
      cases this
      rfl
    rw [hsame] at hperm
    exact ⟨a, ho, huid, groups, rfl, by simpa [Arguments.groups] using hperm.symm⟩

/-- Which arguments are accepted, and for what. -/
theorem parseArgs_iff : parseArgs args pkexecUid = .ok (some options) ↔
    options.targetUid ≠ 0 ∧ pkexecUid = some (decimal options.targetUid.toNat) ∧
    ∃ groups : List Flag, args = groups.flatMap Flag.args ∧
      Requests options.operation (decimal options.targetUid.toNat) groups := by
  constructor
  · intro h
    obtain ⟨a, ho, huid, groups, rfl, hperm⟩ := parseArgs_some h
    obtain ⟨hzero, hpkexec, hrequested⟩ := parsePkexecUid_iff.1 huid
    exact ⟨hzero, hpkexec, groups, rfl,
      (requests_of_read (read_of_operation ho) hrequested).perm hperm.symm⟩
  · rintro ⟨hzero, hpkexec, groups, rfl, hrequests⟩
    obtain ⟨a, hread, hperm, hrequested⟩ := read_of_requests hrequests
    have hscan := scan_of_perm hperm []
    rw [List.append_nil, scan] at hscan
    rw [parseArgs, hscan]
    change (do
      let operation ← operation a
      let targetUid ← parsePkexecUid pkexecUid a.requestedUid
      return some { targetUid, operation } : Except Unit (Option Options)) = _
    rw [operation_of_read hread, parsePkexecUid_iff.2 ⟨hzero, hpkexec, hrequested⟩]
    rfl

theorem seen_of_mem {g : Flag} (h : g ∈ a.groups) : g.seen a = true := by
  rw [mem_groups] at h
  cases g <;> simp_all [Flag.seen]

theorem parseArgs_of_scan_error (h : scan {} args = .error ()) :
    parseArgs args pkexecUid = .error () := by
  rw [parseArgs, h]
  rfl

theorem uid_of_requests {o : Operation} {uid value : List UInt8} {groups : List Flag}
    (h : Requests o uid groups) (hvalue : .uid value ∈ groups) : value = uid := by
  obtain ⟨a, -, hperm, hrequested⟩ := read_of_requests h
  exact hrequested value ((mem_groups _).1 (hperm.mem_iff.1 hvalue))

/-- The laws of the arguments. -/
theorem parseArgs_laws (h : parseArgs args pkexecUid = .ok (some options)) :
    options.targetUid ≠ 0 ∧ pkexecUid = some (decimal options.targetUid.toNat) ∧
    ∃ groups : List Flag, args = groups.flatMap Flag.args ∧
      (∀ groups', args = groups'.flatMap Flag.args → groups' = groups) ∧
      Requests options.operation (decimal options.targetUid.toNat) groups ∧
      (∀ value, .uid value ∈ groups → some value = pkexecUid) ∧
      (∀ groups', groups.Perm groups' →
        parseArgs (groups'.flatMap Flag.args) pkexecUid = .ok (some options)) ∧
      (∀ g ∈ groups, ∀ rest, parseArgs (args ++ g.option :: rest) pkexecUid = .error ()) ∧
      ∀ arg, arg ∉ knownOptions → arg ∉ helpFlags →
        ∀ rest, parseArgs (args ++ arg :: rest) pkexecUid = .error () := by
  obtain ⟨hzero, hpkexec, groups, rfl, hrequests⟩ := parseArgs_iff.1 h
  obtain ⟨a, -, hperm, -⟩ := read_of_requests hrequests
  refine ⟨hzero, hpkexec, groups, rfl, fun groups' h => (flatMap_args_inj h).symm, hrequests,
    fun value hvalue => ?_, fun groups' hgroups' => ?_, fun g hg rest => ?_,
    fun arg hknown hhelp rest => ?_⟩
  · rw [uid_of_requests hrequests hvalue, hpkexec]
  · exact parseArgs_iff.2 ⟨hzero, hpkexec, groups', rfl, hrequests.perm hgroups'⟩
  · refine parseArgs_of_scan_error ?_
    rw [scan_of_perm hperm]
    exact scan_seen (seen_of_mem (hperm.mem_iff.1 hg)) rest
  · refine parseArgs_of_scan_error ?_
    rw [scan_of_perm hperm]
    exact scan_unknown hknown hhelp rest

/-- The manual mode for the lock screen, with the options the other way round. -/
theorem parseArgs_manual :
    parseArgs [ascii "--mode", ascii "manual", ascii "--enable-target", ascii "plasma-lock"]
      (some (ascii "1000")) = .ok (some ⟨1000, .enable .plasmaLock .manual⟩) ∧
    ∃ groups : List Flag, [ascii "--enable-target", ascii "plasma-lock", ascii "--mode",
        ascii "manual"] = groups.flatMap Flag.args ∧
      Requests (.enable .plasmaLock .manual) (decimal 1000) groups := by
  have hok : parseArgs [ascii "--enable-target", ascii "plasma-lock", ascii "--mode",
      ascii "manual"] (some (ascii "1000")) = .ok (some ⟨1000, .enable .plasmaLock .manual⟩) := rfl
  obtain ⟨-, -, groups, hgroups, -, hrequests, -⟩ := parseArgs_laws hok
  exact ⟨rfl, groups, hgroups, hrequests⟩

end SyncVault

end KFaceAuth
