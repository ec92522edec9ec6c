import Fallback.Proofs.Decimal
import Fallback.Proofs.Lowering

/-!
Options that are read from variables of the process.

`Options.IsDepth` and `Options.IsFlag` say what the text of a variable sets, by the grammar of
decimal integers and by the words for a switch; they do not say how a text is read.
`Attempt.runOn_optionsOfVariables` states that reading gives options exactly where both variables
set something, and that it fails in one way only.

Two things about characters matter. Trimming takes off more than may surround a numeral, so a text
may set a depth although it is no numeral as it stands. And a switch is read without regard to case
by the whole of Unicode: of `Text.IsLowerCasing` only what the case of ASCII letters is and that no
other character is lowered into a word is needed.
-/
namespace Fallback

namespace Text

/-! ## Trimmed texts -/

theorem strip_eq_nil_iff {p : Char → Bool} {cs : List Char} :
    strip p cs = [] ↔ ∀ c ∈ cs, p c = true := by
  rw [strip, List.reverse_eq_nil_iff, List.dropWhile_eq_nil_iff]
  refine ⟨fun h c hc => ?_, fun h c hc => ?_⟩
  · rw [← List.takeWhile_append_dropWhile (p := p) (l := cs)] at hc
    obtain hc | hc := List.mem_append.1 hc
    · exact List.mem_takeWhile_imp hc
    · exact h c (List.mem_reverse.2 hc)
  · exact h c ((List.dropWhile_suffix p).subset (List.mem_reverse.1 hc))

/-! ## Lower case -/

/-- A way to lower the case of a text, of which no more is known than what matters here. ASCII
letters get their lower case and other ASCII characters stay. A character outside ASCII leaves one
outside ASCII, but for the Kelvin sign, of which the letter k is the lower case. -/
structure IsLowerCasing (lower : List Char → List Char) : Prop where
  ascii {cs : List Char} (h : ∀ c ∈ cs, c.toNat < 128) : lower cs = cs.map Char.toLower
  wide {cs : List Char} (h : ∃ c ∈ cs, 128 ≤ c.toNat) :
    ∃ c ∈ lower cs, 128 ≤ c.toNat ∨ c = 'k'

/-- Only ASCII letters have another lower case. -/
theorem toLower_of_wide {c : Char} (h : 128 ≤ c.toNat) : c.toLower = c := by
  refine dif_neg fun upper => ?_
  have : c.toNat ≤ 90 := upper.2
  omega

/-- Lowering the case of ASCII letters alone is a way to lower the case. -/
theorem isLowerCasing_map : IsLowerCasing (List.map Char.toLower) where
  ascii _ := rfl
  wide := by
    rintro cs ⟨c, hc, wide⟩
    exact ⟨c, List.mem_map.2 ⟨c, hc, toLower_of_wide wide⟩, .inl wide⟩

/-- A word of ASCII letters other than k is what a text becomes in lower case exactly if it is so
with ASCII letters lowered alone. -/
theorem IsLowerCasing.eq_iff {lower : List Char → List Char} (h : IsLowerCasing lower)
    {cs word : List Char} (plain : ∀ c ∈ word, c.toNat < 128 ∧ c ≠ 'k') :
    lower cs = word ↔ cs.map Char.toLower = word := by
  by_cases ascii : ∀ c ∈ cs, c.toNat < 128
  · rw [h.ascii ascii]
  · have wide : ∃ c ∈ cs, 128 ≤ c.toNat := by
      simpa only [not_forall, not_lt, exists_prop] using ascii
    have never {lower : List Char → List Char} (h : IsLowerCasing lower) : lower cs ≠ word := by
      rintro rfl
      obtain ⟨c, hc, other⟩ := h.wide wide
      obtain ⟨small, letter⟩ := plain c hc
      exact other.elim (Nat.not_le_of_lt small) letter
    exact iff_of_false (never h) (never isLowerCasing_map)

end Text

/-! ## What the text of a variable sets -/

namespace Options

open Text Numeral

/-- The words for a position of a switch. -/
def words : Bool → List String
  | true => onWords
  | false => offWords

/-- The text of a variable, if it is set, asks for a depth: one that is not set or blank for the
standard depth, and a decimal integer for itself, unless it is below one. What surrounds the integer
may be any blanks. -/
inductive IsDepth : Option String → Nat → Prop
  | unset : IsDepth none defaultDepth
  | blank {t : String} (h : ∀ c ∈ t.toList, isBlank c = true) : IsDepth (some t) defaultDepth
  | number {t : String} {negative : Bool} {ds : List Nat} {n : Nat}
      (spells : SpellsInteger (trim t.toList) negative ds) (short : ds.length ≤ digitLimit)
      (value : integerOf negative ds = n) (pos : 1 ≤ n) : IsDepth (some t) n

/-- The text of a variable, if it is set, asks for a position of a switch: without blanks at its
ends and in lower case it is one of the words. -/
inductive IsFlag (lower : List Char → List Char) : Option String → Bool → Prop
  | unset : IsFlag lower none false
  | word {t w : String} {b : Bool} (word : w ∈ words b) (h : lower (trim t.toList) = w.toList) :
      IsFlag lower (some t) b

/-- The depth that a text asks for, below one or not. -/
def depth? : Option String → Option Int
  | none => some defaultDepth
  | some t =>
    if (trim t.toList).isEmpty then some defaultDepth
    else
      match readInteger (trim t.toList) with
      | .ok n => some n
      | .error _ => none

/-- The position of a switch that a text asks for. -/
def debug? : Option String → Option Bool
  | none => some false
  | some t => flag? (trim t.toList)

/-- Reading the depth agrees with what the text asks for. -/
theorem isDepth_iff {t? : Option String} {n : Nat} :
    IsDepth t? n ↔ depth? t? = some (n : Int) ∧ 1 ≤ n := by
  cases t? with
  | none =>
    refine ⟨fun h => ?_, ?_⟩
    · cases h
      exact ⟨rfl, by decide⟩
    · rintro ⟨same, -⟩
      have : n = defaultDepth := (Int.ofNat.inj (Option.some.inj same)).symm
      exact this ▸ .unset
  | some t =>
    rw [depth?]
    by_cases blank : trim t.toList = []
    · have all := strip_eq_nil_iff.1 blank
      rw [if_pos (List.isEmpty_iff.2 blank)]
      refine ⟨fun h => ?_, ?_⟩
      · cases h with
        | blank _ => exact ⟨rfl, by decide⟩
        | number spells short value pos =>
          have read := readInteger_eq_ok_iff.2 ⟨_, _, spells, short, rfl⟩
          rw [blank] at read
          cases read
      · rintro ⟨same, -⟩
        have : n = defaultDepth := (Int.ofNat.inj (Option.some.inj same)).symm
        exact this ▸ .blank all
    · rw [if_neg (by simpa using blank)]
      refine ⟨fun h => ?_, ?_⟩
      · cases h with
        | blank h => exact absurd (strip_eq_nil_iff.2 h) blank
        | number spells short value pos =>
          have read := readInteger_eq_ok_iff.2 ⟨_, _, spells, short, value.symm⟩
          rw [read]
          exact ⟨rfl, pos⟩
      · rintro ⟨same, pos⟩
        split at same
        · next m read =>
          cases same
          obtain ⟨negative, ds, spells, short, value⟩ := readInteger_eq_ok_iff.1 read
          exact .number spells short value.symm pos
        · cases same

/-- No word is one for both positions. -/
theorem flag?_eq_some_iff {cs : List Char} {b : Bool} :
    flag? cs = some b ↔ String.ofList (cs.map Char.toLower) ∈ words b := by
  have apart : ∀ w ∈ onWords, w ∉ offWords := by decide
  rw [flag?]
  generalize String.ofList (cs.map Char.toLower) = w
  by_cases on : w ∈ onWords
  · rw [if_pos (List.contains_iff_mem.2 on)]
    cases b with
    | true => exact iff_of_true rfl on
    | false => exact iff_of_false nofun (apart w on)
  · rw [if_neg (mt List.contains_iff_mem.1 on)]
    by_cases off : w ∈ offWords
    · rw [if_pos (List.contains_iff_mem.2 off)]
      cases b with
      | true => exact iff_of_false nofun on
      | false => exact iff_of_true rfl off
    · rw [if_neg (mt List.contains_iff_mem.1 off)]
      cases b with
      | true => exact iff_of_false nofun on
      | false => exact iff_of_false nofun off

/-- Reading the switch agrees with what the text asks for. -/
theorem isFlag_iff {lower : List Char → List Char} (lowering : IsLowerCasing lower)
    {t? : Option String} {b : Bool} : IsFlag lower t? b ↔ debug? t? = some b := by
  have ascii : ∀ b, ∀ w ∈ words b, w.toList.all (fun c => c.toNat < 128 ∧ c ≠ 'k') = true := by
    decide
  have plain : ∀ b, ∀ w ∈ words b, ∀ c ∈ w.toList, c.toNat < 128 ∧ c ≠ 'k' :=
    fun b w word c hc => of_decide_eq_true (List.all_eq_true.1 (ascii b w word) c hc)
  cases t? with
  | none =>
    refine ⟨fun h => ?_, fun h => ?_⟩
    · cases h
      rfl
    · cases h
      exact .unset
  | some t =>
    rw [debug?, flag?_eq_some_iff]
    refine ⟨fun h => ?_, fun h => ?_⟩
    · cases h with
      | word word h =>
        rw [lowering.eq_iff (plain _ _ word)] at h
        rw [h, String.ofList_toList]
        exact word
    · refine .word h ?_
      rw [lowering.eq_iff (plain _ _ h), String.toList_ofList]

theorem defaultDepth_lt : (defaultDepth : Int).natAbs < digitBound := by
  rw [digitBound_eq]
  calc (defaultDepth : Int).natAbs < 10 ^ 3 := by decide
    _ ≤ 10 ^ digitLimit := Nat.pow_le_pow_right (by decide) (by decide)

/-- A depth that is asked for can be shown, also where it is refused. -/
theorem showInt_of_depth? {t? : Option String} {n : Int} (h : depth? t? = some n) :
    showInt n = .ok (toString n) := by
  have bounded : n.natAbs < digitBound := by
    cases t? with
    | none =>
      cases h
      exact defaultDepth_lt
    | some t =>
      rw [depth?] at h
      split at h
      · cases h
        exact defaultDepth_lt
      · split at h
        · next m read =>
          cases h
          exact natAbs_lt_of_readInteger read
        · cases h
  rw [showInt, if_neg (Nat.not_le_of_lt bounded)]

end Options

/-! ## Reading variables -/

namespace Attempt

open Options Text Numeral

variable {s : Store} {α β : Type}

theorem follows_fail {R : Store → β → α → Prop} (kind : FaultKind) (message : String) :
    Follows s (fail kind message : Attempt α) (.error kind) R :=
  follows_throw rfl

/-- What there is, or else a fault of configuration. -/
def orConfiguration : Option α → Except FaultKind α
  | some a => .ok a
  | none => .error .configuration

theorem runOn_trimmed (t : String) (stamp : Nat) (s : Store) :
    (trimmed (.str t stamp)).runOn s = (.ok (trim t.toList), s) := rfl

theorem follows_depthOf (t : String) (stamp : Nat) :
    Follows s (depthOf (.str t stamp)) (orConfiguration (depth? (some t)))
      fun _ n m => m = n ∧ depth? (some t) = some n := by
  rw [depthOf, depth?]
  refine .after (runOn_trimmed t stamp s) (.refl s) ?_
  split
  · exact .pure ⟨rfl, rfl⟩
  · cases readInteger (trim t.toList) with
    | ok n => exact .pure ⟨rfl, rfl⟩
    | error m =>
      refine .after (runOn_quotedText rfl) (.refl s) ?_
      exact follows_fail _ _

theorem follows_flagOf (name t : String) (stamp : Nat) :
    Follows s (flagOf name (.str t stamp)) (orConfiguration (debug? (some t)))
      fun _ b b' => b' = b := by
  rw [flagOf, debug?]
  refine .after (runOn_trimmed t stamp s) (.refl s) ?_
  cases flag? (trim t.toList) with
  | some b => exact .pure rfl
  | none =>
    refine .after (runOn_quotedText rfl) (.refl s) ?_
    exact follows_fail _ _

/-- Options of values of the right types are made if the depth is at least one. -/
theorem follows_options {depth : Int} (shown : showInt depth = .ok (toString depth))
    (debug : Bool) :
    Follows s (do options (some (← integer depth)) (some (.bool debug)))
      (if 1 ≤ depth then .ok (depth.toNat, debug) else .error .configuration)
      fun _ e o => o.maxDepth = e.1 ∧ o.debugTrace = .bool e.2 := by
  refine .after (x := integer depth) rfl (.addStamp s) ?_
  rw [options]
  refine .after (Work.runOn_pure depth _) (.refl _) ?_
  beta_reduce
  by_cases low : 1 ≤ depth
  · have low' : 1 ≤ depth.toNat := by omega
    rw [if_pos low, dif_pos low']
    exact .pure ⟨rfl, rfl⟩
  · have low' : ¬1 ≤ depth.toNat := by omega
    rw [if_neg low, dif_neg low']
    refine .after (a := toString depth) ?_ (.refl _) (follows_fail _ _)
    rw [runOn_ask, shown]

/-- What two variables ask for together. -/
def asked (depth debug : Option String) : Except FaultKind (Nat × Bool) := do
  let depth ← orConfiguration (depth? depth)
  let debug ← orConfiguration (debug? debug)
  if 1 ≤ depth then .ok (depth.toNat, debug) else .error .configuration

/-- Once the depth was read, the rest ends as the text of the switch asks for. -/
theorem follows_switch {t : Store} {vars : String → Option String} (stamps : String → Nat)
    {depth : Int} (asks : depth? (vars depthVariable) = some depth) :
    Follows t
      (match (vars debugVariable).map (Value.str · (stamps debugVariable)) with
        | some v => do
          let debug ← flagOf debugVariable v
          options (some (← integer depth)) (some (.bool debug))
        | none => do
          let debug ← pure false
          options (some (← integer depth)) (some (.bool debug)))
      (orConfiguration (debug? (vars debugVariable)) >>= fun debug =>
        if 1 ≤ depth then .ok (depth.toNat, debug) else .error .configuration)
      fun _ e o => o.maxDepth = e.1 ∧ o.debugTrace = .bool e.2 := by
  have shown := showInt_of_depth? asks
  cases vars debugVariable with
  | none => exact follows_options shown false
  | some word =>
    refine (follows_flagOf debugVariable word _).bind ?_
    rintro u debug _ - rfl
    exact follows_options shown _

/-- Reading the variables ends as the two texts ask for. -/
theorem follows_optionsOfVariables (vars : String → Option String) (stamps : String → Nat) :
    Follows s (optionsOfVariables fun name => (vars name).map (.str · (stamps name)))
      (asked (vars depthVariable) (vars debugVariable))
      fun _ e o => o.maxDepth = e.1 ∧ o.debugTrace = .bool e.2 := by
  have said (name : String) : ((vars name).map (Value.str · (stamps name))).filter
      (fun v => !v.isNull) = (vars name).map (.str · (stamps name)) := by
    cases vars name <;> rfl
  rw [optionsOfVariables]
  simp only [said]
  cases depth : vars depthVariable with
  | none => exact follows_switch stamps (congrArg depth? depth)
  | some t =>
    refine (follows_depthOf t _).bind ?_
    rintro u n _ - ⟨rfl, asks⟩
    exact follows_switch stamps ((congrArg depth? depth).trans asks)

section Asked

variable {lower : List Char → List Char} {depthText debugText : Option String}

theorem asked_eq_ok (lowering : IsLowerCasing lower) {depth : Nat} {debug : Bool}
    (asks : IsDepth depthText depth) (position : IsFlag lower debugText debug) :
    asked depthText debugText = .ok (depth, debug) := by
  obtain ⟨read, one⟩ := isDepth_iff.1 asks
  rw [asked, read, (isFlag_iff lowering).1 position]
  exact if_pos (Int.ofNat_le.2 one)

theorem asked_eq_error (lowering : IsLowerCasing lower)
    (nothing : ∀ depth debug, IsDepth depthText depth → ¬IsFlag lower debugText debug) :
    asked depthText debugText = .error .configuration := by
  rw [asked]
  cases depth : depth? depthText with
  | none => rfl
  | some n =>
    cases debug : debug? debugText with
    | none => rfl
    | some b =>
      refine if_neg fun one => ?_
      have same : (n.toNat : Int) = n := Int.toNat_of_nonneg (Int.le_trans (by decide) one)
      have asks : IsDepth depthText n.toNat :=
        isDepth_iff.2 ⟨by rw [depth, same], Int.ofNat_le.1 (by rwa [same])⟩
      exact nothing _ b asks ((isFlag_iff lowering).2 debug)

end Asked

end Attempt

/-! ## The limit on the depth -/

/-- The limit of a frame is at least one, and neither the options nor the ceiling are exceeded. -/
theorem Frame.limit_bounds (o : Options) (callLimit : Int) :
    1 ≤ Frame.limit o (depthCeiling callLimit) ∧
      (Frame.limit o (depthCeiling callLimit) : Int) ≤ max 1 ((callLimit - 200).fdiv 4) ∧
      Frame.limit o (depthCeiling callLimit) ≤ o.maxDepth := by
  have one := o.one_le_maxDepth
  simp only [Frame.limit, depthCeiling, reservedCalls, callsPerNode]
  generalize (callLimit - 200).fdiv 4 = levels
  omega

namespace Attempt

open Options Text Numeral

/-- Whatever texts the variables have, options are read exactly if both ask for something: they have
the depth that the one asks for and the position of the switch that the other asks for. Otherwise
reading ends with a fault of configuration. Under options that were read and any limit on nested
calls, the limit of a frame is at least one and at most what either of them allows. -/
theorem runOn_optionsOfVariables (vars : String → Option String) (stamps : String → Nat)
    {lower : List Char → List Char} (lowering : IsLowerCasing lower) (s : Store) :
    let read := (optionsOfVariables fun name => (vars name).map (.str · (stamps name))).runOn s
    (∀ depth debug, IsDepth (vars depthVariable) depth →
      IsFlag lower (vars debugVariable) debug →
      ∃ o t, read = (.ok o, t) ∧ o.maxDepth = depth ∧ o.debugTrace = .bool debug) ∧
    ((∀ depth debug, IsDepth (vars depthVariable) depth →
        ¬IsFlag lower (vars debugVariable) debug) →
      ∃ e t, read = (.error e, t) ∧ (t.fault e).kind = .configuration) ∧
    ∀ o t, read = (.ok o, t) → ∀ (callLimit : Int) (env : Environment) (traced : Bool),
      let limit := (Request.mk o (depthCeiling callLimit) env traced).frame.maxDepth
      1 ≤ limit ∧ (limit : Int) ≤ max 1 ((callLimit - 200).fdiv 4) ∧ limit ≤ o.maxDepth := by
  intro read
  have follows := follows_optionsOfVariables (s := s) vars stamps
  refine ⟨fun depth debug asks position => ?_, fun nothing => ?_,
    fun o _ _ callLimit _ _ => Frame.limit_bounds o callLimit⟩
  · rw [asked_eq_ok lowering asks position] at follows
    obtain ⟨o, t, runs, -, same⟩ := follows
    exact ⟨o, t, runs, same⟩
  · rw [asked_eq_error lowering nothing] at follows
    obtain ⟨e, t, runs, -, -, kind⟩ := follows
    exact ⟨e, t, runs, kind⟩

/-- The variables with these texts. -/
def setting (depth debug : Option String) (name : String) : Option String :=
  if name = depthVariable then depth else if name = debugVariable then debug else none

/-- A sign, an underscore and capital letters are read, and what is below one is refused. -/
theorem runOn_optionsOfVariables_of_setting :
    (∃ o t, (optionsOfVariables fun name =>
          (setting (some "+1_6") (some " On ") name).map (.str · 1)).runOn Store.empty =
          (.ok o, t) ∧
        o.maxDepth = 16 ∧ o.debugTrace = .bool true) ∧
      ∃ e t, (optionsOfVariables fun name =>
          (setting (some "-5") none name).map (.str · 1)).runOn Store.empty = (.error e, t) ∧
        (t.fault e).kind = .configuration := by
  obtain ⟨reads, -⟩ := runOn_optionsOfVariables (setting (some "+1_6") (some " On ")) (fun _ => 1)
    isLowerCasing_map Store.empty
  obtain ⟨-, refuses, -⟩ := runOn_optionsOfVariables (setting (some "-5") none) (fun _ => 1)
    isLowerCasing_map Store.empty
  refine ⟨reads 16 true (isDepth_iff.2 ⟨rfl, by decide⟩)
    ((isFlag_iff isLowerCasing_map).2 rfl), refuses fun depth debug asks => ?_⟩
  obtain ⟨same, one⟩ := isDepth_iff.1 asks
  have value : depth? (setting (some "-5") none depthVariable) = some (-5) := rfl
  rw [value] at same
  cases same

/-- Five after a character that trimming removes and that may not stand before a numeral. -/
def separated : String :=
  String.ofList [Char.ofNat 0x1C, '5']

/-- The text is not blank and no decimal integer as it stands, and yet it sets the depth. -/
theorem exists_depth_of_separated :
    (∃ c ∈ separated.toList, Text.isBlank c = false) ∧
      (∀ negative ds, ¬SpellsInteger separated.toList negative ds) ∧
      ∃ o t, (optionsOfVariables fun name =>
          (setting (some separated) none name).map (.str · 1)).runOn Store.empty = (.ok o, t) ∧
        o.maxDepth = 5 := by
  refine ⟨⟨'5', by decide, by decide⟩, fun negative ds spells => ?_, _, _, rfl, rfl⟩
  have read := readInteger_of_spells spells
  rw [show readInteger separated.toList = .error .malformed by decide] at read
  split at read
  · cases read
  · cases read

end Attempt

end Fallback
