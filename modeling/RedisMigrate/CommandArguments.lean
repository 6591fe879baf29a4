import RedisMigrate.CommandSds
import RedisMigrate.CommandTemplate

/-! # The arguments of a formatted command

`nextArgument` of `hiredis/async.c` and the tests that `__redisAsyncCommand` makes on the text of a
command.  A pointer into the text is an offset; the text ends with a NUL that is not part of it.
`none` is a failed assertion, or a pointer outside of the text.

* `argumentsFrom_commandText`: the loop over the channels of a command finds its arguments.
* `asyncKind_commandText`: how the name of a command decides what is done with it. -/

namespace RedisMigrate

/-! ### Strings of C -/

/-- `isspace`. -/
def isspace (c : UInt8) : Bool := c = 32 || (9 ≤ c.toNat && c.toNat ≤ 13)

/-- `strtol(s, NULL, 10)`. -/
def strtol10 (s : Bytes) : ℤ :=
  let s := s.dropWhile isspace
  let negative := s.head? = some 45
  let ds := (if negative ∨ s.head? = some 43 then s.tail else s).takeWhile isdigit
  let v := ofDigitBytes 0 ds
  if negative then max (-v) (-9223372036854775808) else min v 9223372036854775807

/-- `strncasecmp(s, t, n) == 0`; a list ends where the NUL is. -/
def strncaseeq : Bytes → Bytes → ℕ → Bool
  | _, _, 0 => true
  | s, t, n + 1 =>
      if tolower (s.headD 0) ≠ tolower (t.headD 0) then false
      else if s.headD 0 = 0 then true
      else strncaseeq s.tail t.tail n

/-- `strcasecmp(s, t) == 0`. -/
def strcaseeq (s t : Bytes) : Bool := strncaseeq s t (s.length + 1)

/-- `strchr(s + pos, c)`. -/
def strchrFrom (s : Bytes) (pos : ℕ) (c : UInt8) : Option ℕ :=
  (((s.drop pos).takeWhile (· ≠ 0)).idxOf? c).map (pos + ·)

/-! ### Arguments -/

/-- `str`, `len` and what is returned, for a command text and an offset in it; the inner `none` is
`NULL`.  `*len` keeps its sign. -/
def nextArgument (cmd : Bytes) (start : ℕ) : Option (Option (ℕ × ℤ × ℕ)) :=
  match strchrFrom cmd start 36 with
  | none => some none
  | some p =>
      let len := wrapInt (strtol10 (cmd.drop (p + 1)))
      match strchrFrom cmd p 13 with
      | none => none
      | some p =>
          let next := (p : ℤ) + 2 + len + 2
          if p + 2 ≤ cmd.length ∧ 0 ≤ next ∧ next ≤ cmd.length then
            some (some (p + 2, len, next.toNat))
          else none

/-- `sdsnewlen(astr, alen)`, where a negative length is more than there is memory for. -/
def argumentName (cmd : Bytes) (str : ℕ) (len : ℤ) : Option Bytes :=
  if 0 ≤ len then some ((cmd.drop str).take len.toNat) else none

/-- The names that `while ((p = nextArgument(p,&astr,&alen)) != NULL)` finds, and whether it ends;
`none` is a name that there is no memory for. -/
def argumentsFrom (cmd : Bytes) : ℕ → ℕ → List (Option Bytes) × Bool
  | 0, _ => ([], false)
  | fuel + 1, p =>
      match nextArgument cmd p with
      | none => ([], false)
      | some none => ([], true)
      | some (some (str, len, next)) =>
          let r := argumentsFrom cmd fuel next
          (argumentName cmd str len :: r.1, r.2)

/-- What `__redisAsyncCommand` does with a command; a subscription comes with `pvariant` and the
arguments after the name. -/
inductive AsyncKind where
  | subscribe (pvariant : Bool) (names : List (Option Bytes) × Bool)
  | unsubscribe
  | monitor
  | regular
deriving DecidableEq, Repr

/-- `cstr` is the text from the name of the command on, without a first `p`. -/
def asyncKind (cmd : Bytes) : Option AsyncKind :=
  match nextArgument cmd 0 with
  | none => none
  | some none => none
  | some (some (str, _, p)) =>
      let pvariant : Bool := tolower ((cmd.drop str).headD 0) = 112
      let cstr := cmd.drop (str + pvariant.toNat)
      if cmd[p]? = some 36 ∧ strncaseeq cstr (ascii "subscribe\x0d\n") 11 then
        some (.subscribe pvariant (argumentsFrom cmd (cmd.length + 1) p))
      else if strncaseeq cstr (ascii "unsubscribe\x0d\n") 13 then some .unsubscribe
      else if strncaseeq cstr (ascii "monitor\x0d\n") 9 then some .monitor
      else some .regular

/-! ### The arguments of a command text -/

theorem strchrFrom_append {pre mid post : Bytes} {c : UInt8} (hmid : c ∉ mid) (h0 : 0 ∉ mid)
    (hc : c ≠ 0) :
    strchrFrom (pre ++ (mid ++ c :: post)) pre.length c = some (pre.length + mid.length) := by
  have htake : (mid ++ c :: post).takeWhile (· ≠ 0) = mid ++ c :: post.takeWhile (· ≠ 0) := by
    rw [List.takeWhile_append_of_pos, List.takeWhile_cons_of_pos (by simpa using hc)]
    intro x hx
    simp only [ne_eq, decide_not, Bool.not_eq_eq_eq_not, Bool.not_true, decide_eq_false_iff_not]
    exact fun heq => h0 (heq ▸ hx)
  have hidx : (mid ++ c :: post.takeWhile (· ≠ 0)).idxOf? c = some mid.length := by
    rw [List.idxOf?, List.findIdx?_append]
    have hnone : mid.findIdx? (· == c) = none := by
      rw [List.findIdx?_eq_none_iff]
      intro x hx
      exact beq_eq_false_iff_ne.mpr fun heq => hmid (heq ▸ hx)
    rw [hnone, List.findIdx?_cons]
    simp
  rw [strchrFrom, List.drop_left, htake, hidx, Option.map_some]

theorem strchrFrom_end (s : Bytes) (c : UInt8) : strchrFrom s s.length c = none := by
  rw [strchrFrom, List.drop_length]
  rfl

theorem isdigit_of_isDecDigit {c : UInt8} (h : IsDecDigit c) : isdigit c = true := by
  simp [isdigit, h.1, h.2]

theorem strtol10_digits {n : ℕ} (hn : n ≤ 9223372036854775807) {c : UInt8} {rest : Bytes}
    (hc : isdigit c = false) : strtol10 (digits n ++ c :: rest) = n := by
  obtain ⟨d, ds, hds⟩ := List.exists_cons_of_ne_nil (digits_ne_nil n)
  have hd : IsDecDigit d := isDecDigit_of_mem_digits (hds ▸ List.mem_cons_self)
  have hspace : isspace d = false := by
    have h1 := hd.1
    have h2 : d ≠ 32 := fun heq => by
      rw [heq] at h1
      exact absurd h1 (by decide)
    simp [isspace, h2]
    omega
  have hsign : ∀ x : UInt8, x.toNat < 48 → d ≠ x := fun x hx heq => by
    have h1 := hd.1
    rw [heq] at h1
    omega
  have hdrop : (digits n ++ c :: rest).dropWhile isspace = digits n ++ c :: rest := by
    rw [hds, List.cons_append, List.dropWhile_cons_of_neg (by simp [hspace])]
  have hhead : (digits n ++ c :: rest).head? = some d := by
    rw [hds]
    rfl
  have htake : (digits n ++ c :: rest).takeWhile isdigit = digits n := by
    rw [List.takeWhile_append_of_pos
      fun x hx => isdigit_of_isDecDigit (isDecDigit_of_mem_digits hx),
      List.takeWhile_cons_of_neg (by simp [hc]), List.append_nil]
  have h45 := hsign 45 (by decide)
  have h43 := hsign 43 (by decide)
  rw [strtol10, hdrop]
  simp only [hhead, Option.some.injEq, h45, h43, or_self, if_false, htake, ofDigitBytes_digits]
  omega

/-- The next argument is found behind what has no `$`. -/
theorem nextArgument_bulk {pre mid post arg : Bytes} (hmid : 36 ∉ mid) (h0 : 0 ∉ mid)
    (harg : arg.length ≤ 2147483647) :
    nextArgument (pre ++ (mid ++ (bulkText arg ++ post))) pre.length =
      some (some ((pre ++ mid ++ bulkHeader arg).length, (arg.length : ℤ),
        (pre ++ mid ++ bulkText arg).length)) := by
  have hdollar : strchrFrom (pre ++ (mid ++ (bulkText arg ++ post))) pre.length 36 =
      some (pre.length + mid.length) := strchrFrom_append hmid h0 (by decide)
  have hline : ∀ c ∈ 36 :: digits arg.length, c ≠ 13 ∧ c ≠ 0 := by
    intro c hc
    cases List.mem_cons.mp hc with
    | inl heq =>
        subst heq
        decide
    | inr hmem =>
        have hdig := (isDecDigit_of_mem_digits hmem).1
        constructor
        · intro heq
          rw [heq] at hdig
          exact absurd hdig (by decide)
        · intro heq
          rw [heq] at hdig
          exact absurd hdig (by decide)
  have hcr : strchrFrom (pre ++ (mid ++ (bulkText arg ++ post))) (pre.length + mid.length) 13 =
      some (pre.length + mid.length + ((digits arg.length).length + 1)) := by
    have h := @strchrFrom_append (pre ++ mid) (36 :: digits arg.length)
      (10 :: (arg ++ crlf) ++ post) 13 (fun hc => (hline 13 hc).1 rfl)
      (fun hc => (hline 0 hc).2 rfl) (by decide)
    simp only [List.length_append, List.length_cons, List.append_assoc, List.cons_append] at h
    simp only [bulkText, bulkHeader, crlf, List.append_assoc, List.cons_append,
      List.nil_append] at h ⊢
    rw [h]
  have hnum :
      strtol10 ((pre ++ (mid ++ (bulkText arg ++ post))).drop (pre.length + mid.length + 1)) =
        arg.length := by
    have hdrop : (pre ++ (mid ++ (bulkText arg ++ post))).drop (pre.length + mid.length + 1) =
        digits arg.length ++ 13 :: (10 :: (arg ++ crlf) ++ post) := by
      rw [← List.append_assoc, ← List.length_append, List.drop_append,
        List.drop_of_length_le (by omega), Nat.add_sub_cancel_left]
      simp [bulkText, bulkHeader, crlf]
    rw [hdrop]
    exact strtol10_digits (by omega) (by decide)
  have hwrap : wrapInt arg.length = arg.length := by
    unfold wrapInt
    omega
  have hstart : pre.length + mid.length + ((digits arg.length).length + 1) + 2 =
      (pre ++ mid ++ bulkHeader arg).length := by
    simp only [bulkHeader, crlf, List.length_append, List.length_cons, List.length_nil]
    omega
  have hend : ((pre.length + mid.length + ((digits arg.length).length + 1) : ℕ) : ℤ) + 2 +
      (arg.length : ℤ) + 2 = ((pre ++ mid ++ bulkText arg).length : ℤ) := by
    simp only [bulkText, bulkHeader, crlf, List.length_append, List.length_cons, List.length_nil]
    omega
  have htext : (pre ++ (mid ++ (bulkText arg ++ post))).length =
      (pre ++ mid ++ bulkText arg).length + post.length := by
    simp only [List.length_append, Nat.add_assoc]
  have hle : (pre ++ mid ++ bulkHeader arg).length ≤ (pre ++ mid ++ bulkText arg).length := by
    simp only [bulkText, List.length_append]
    omega
  rw [nextArgument, hdollar]
  dsimp only
  rw [hcr, hnum, hwrap]
  dsimp only
  rw [hstart, hend, if_pos (by omega), Int.toNat_natCast]

theorem nextArgument_end (cmd : Bytes) : nextArgument cmd cmd.length = some none := by
  rw [nextArgument, strchrFrom_end]

/-- The loop finds the arguments from some place on. -/
theorem argumentsFrom_bulks {args : List Bytes} (hargs : ∀ arg ∈ args, arg.length ≤ 2147483647)
    (pre : Bytes) {fuel : ℕ} (hfuel : args.length < fuel) :
    argumentsFrom (pre ++ args.flatMap bulkText) fuel pre.length = (args.map some, true) := by
  induction args generalizing pre fuel with
  | nil =>
      obtain ⟨n, rfl⟩ := Nat.exists_eq_add_of_lt hfuel
      rw [List.flatMap_nil, List.append_nil, List.length_nil, Nat.zero_add, argumentsFrom,
        nextArgument_end]
      rfl
  | cons arg args ih =>
      cases fuel with
      | zero => omega
      | succ fuel =>
          have hnext := @nextArgument_bulk pre [] (args.flatMap bulkText) arg (by simp) (by simp)
            (hargs arg List.mem_cons_self)
          have hname : argumentName (pre ++ (arg :: args).flatMap bulkText)
              (pre ++ bulkHeader arg).length arg.length = some arg := by
            rw [argumentName, if_pos (by omega), List.flatMap_cons, bulkText, List.append_assoc,
              ← List.append_assoc pre, List.drop_left, Int.toNat_natCast, List.append_assoc,
              List.take_left]
          have hfuel' : args.length < fuel := by simpa using hfuel
          have hrest := ih (fun a ha => hargs a (List.mem_cons_of_mem _ ha)) (pre ++ bulkText arg)
            hfuel'
          rw [List.append_assoc, ← List.flatMap_cons] at hrest
          simp only [List.append_nil, List.nil_append] at hnext
          rw [← List.flatMap_cons] at hnext
          rw [argumentsFrom, hnext]
          dsimp only
          rw [hname, hrest]
          rfl

/-! ### The name of a command -/

theorem tolower_toNat (c : UInt8) :
    (tolower c).toNat = if 65 ≤ c.toNat ∧ c.toNat ≤ 90 then c.toNat + 32 else c.toNat := by
  rw [tolower]
  split_ifs with h
  · rw [UInt8.toNat_add, Nat.mod_eq_of_lt]
    · rfl
    · have h32 : (32 : UInt8).toNat = 32 := rfl
      omega
  · rfl

theorem tolower_eq_of_lt {c d : UInt8} (hd : d.toNat < 65) : tolower c = d ↔ c = d := by
  rw [← UInt8.toNat_inj, ← UInt8.toNat_inj, tolower_toNat]
  split_ifs with h <;> omega

/-- The comparison with a text that has no NUL. -/
theorem strncaseeq_iff {s t : Bytes} (ht : 0 ∉ t) :
    strncaseeq s t t.length = true ↔ t.map tolower <+: s.map tolower := by
  induction t generalizing s with
  | nil => simp [strncaseeq]
  | cons d t ih =>
      rw [List.mem_cons, not_or] at ht
      have hd : tolower d ≠ 0 := fun heq => ht.1 ((tolower_eq_of_lt (by decide)).mp heq).symm
      rw [List.length_cons, strncaseeq, List.headD_cons, List.tail_cons]
      cases s with
      | nil =>
          have h0 : tolower (([] : Bytes).headD 0) ≠ tolower d := fun heq => hd (heq ▸ rfl)
          rw [if_pos h0]
          simp
      | cons c s =>
          rw [List.headD_cons, List.tail_cons, List.map_cons, List.map_cons, List.cons_prefix_cons]
          by_cases hcd : tolower c = tolower d
          · have hc : c ≠ 0 := fun heq => hd (by rw [← hcd, heq]; rfl)
            rw [if_neg (by simp [hcd]), if_neg hc, ih ht.2]
            simp [hcd]
          · rw [if_pos hcd]
            simp [Ne.symm hcd]

theorem append_cons_prefix_iff {x : UInt8} {s t u v : Bytes} (hs : x ∉ s) (ht : x ∉ t) :
    t ++ x :: u <+: s ++ x :: v ↔ s = t ∧ u <+: v := by
  induction t generalizing s with
  | nil =>
      cases s with
      | nil => simp
      | cons c s =>
          rw [List.mem_cons, not_or] at hs
          simp [hs.1]
  | cons d t ih =>
      rw [List.mem_cons, not_or] at ht
      cases s with
      | nil => simp [Ne.symm ht.1]
      | cons c s =>
          rw [List.mem_cons, not_or] at hs
          rw [List.cons_append, List.cons_append, List.cons_prefix_cons, ih hs.2 ht.2,
            List.cons.injEq, and_assoc, eq_comm]

/-- The comparison with a name and the end of its line. -/
theorem strncaseeq_line {s t rest : Bytes} (hs : 13 ∉ s) (ht : ∀ c ∈ t, c ≠ 13 ∧ c ≠ 0)
    (hlower : t.map tolower = t) :
    strncaseeq (s ++ (crlf ++ rest)) (t ++ crlf) (t.length + 2) = true ↔ s.map tolower = t := by
  have h0 : 0 ∉ t ++ crlf := by
    intro hmem
    cases List.mem_append.mp hmem with
    | inl hmem => exact (ht 0 hmem).2 rfl
    | inr hmem => exact absurd hmem (by decide)
  have hs' : 13 ∉ s.map tolower := by
    intro hmem
    obtain ⟨c, hc, heq⟩ := List.mem_map.mp hmem
    exact hs ((tolower_eq_of_lt (by decide)).mp heq ▸ hc)
  have hlen : t.length + 2 = (t ++ crlf).length := by simp [crlf]
  have hcrlf : ∀ u : Bytes, (crlf ++ u).map tolower = 13 :: 10 :: u.map tolower := fun _ => rfl
  have hend : (t ++ crlf).map tolower = t ++ 13 :: [10] := by
    rw [List.map_append, hlower]
    rfl
  rw [hlen, strncaseeq_iff h0, hend, List.map_append, hcrlf,
    append_cons_prefix_iff hs' fun hmem => (ht 13 hmem).1 rfl]
  simp

/-- What is done with a command, by its name without regard to case: a first `p` is not part of
it. -/
def asyncKindOf (name : Bytes) (args : List Bytes) : AsyncKind :=
  let pvariant : Bool := tolower (name.headD 0) = 112
  let stem := (name.drop pvariant.toNat).map tolower
  if args ≠ [] ∧ stem = ascii "subscribe" then .subscribe pvariant (args.map some, true)
  else if stem = ascii "unsubscribe" then .unsubscribe
  else if stem = ascii "monitor" then .monitor
  else .regular

theorem commandHeader_plain {n : ℕ} {c : UInt8} (h : c ∈ commandHeader n) : c ≠ 36 ∧ c ≠ 0 := by
  have hc : c = 42 ∨ IsDecDigit c ∨ c = 13 ∨ c = 10 := by
    rw [commandHeader, decimal_of_nonneg, crlf, List.cons_append, List.mem_cons, List.mem_append,
      List.mem_cons, List.mem_singleton] at h
    exact h.imp_right fun h => h.imp_left isDecDigit_of_mem_digits
  constructor
  · intro heq
    subst heq
    revert hc
    unfold IsDecDigit
    decide
  · intro heq
    subst heq
    revert hc
    unfold IsDecDigit
    decide

theorem asyncKind_text {name : Bytes} {args : List Bytes}
    (hlen : ∀ arg ∈ name :: args, arg.length ≤ 2147483647) (hcr : 13 ∉ name) :
    asyncKind (commandText (name :: args)) = some (asyncKindOf name args) := by
  have hnext := @nextArgument_bulk [] (commandHeader (name :: args).length)
    (args.flatMap bulkText) name (fun h => (commandHeader_plain h).1 rfl)
    (fun h => (commandHeader_plain h).2 rfl) (hlen name List.mem_cons_self)
  have hcmd : commandText (name :: args) =
      [] ++ (commandHeader (name :: args).length ++ (bulkText name ++ args.flatMap bulkText)) := by
    rw [commandText, List.flatMap_cons, List.nil_append]
  have hstr : (commandText (name :: args)).drop
      ([] ++ commandHeader (name :: args).length ++ bulkHeader name).length =
        name ++ (crlf ++ args.flatMap bulkText) := by
    rw [hcmd]
    simp only [List.nil_append, bulkText, ← List.append_assoc]
    rw [List.append_assoc, List.append_assoc, List.drop_left, List.append_assoc]
  have hpre : commandText (name :: args) =
      ([] ++ commandHeader (name :: args).length ++ bulkText name) ++ args.flatMap bulkText := by
    rw [hcmd, List.nil_append, List.nil_append, List.append_assoc]
  have hmore : (commandText (name :: args))[([] ++ commandHeader (name :: args).length ++
      bulkText name).length]? = some 36 ↔ args ≠ [] := by
    rw [hpre, List.getElem?_append_right le_rfl, Nat.sub_self]
    cases args with
    | nil => simp
    | cons arg args => simp [bulkText, bulkHeader]
  have hargs : argumentsFrom (commandText (name :: args)) ((commandText (name :: args)).length + 1)
      ([] ++ commandHeader (name :: args).length ++ bulkText name).length =
        (args.map some, true) := by
    have hcount : args.length < (commandText (name :: args)).length + 1 := by
      have hle : args.length ≤ (args.flatMap bulkText).length := by
        rw [List.length_flatMap]
        have hone : ∀ n ∈ args.map fun arg => (bulkText arg).length, 1 ≤ n := by
          intro n hn
          obtain ⟨arg, -, rfl⟩ := List.mem_map.mp hn
          rw [length_bulkText, bulklen]
          omega
        simpa using List.length_le_sum_of_one_le _ hone
      rw [hpre, List.length_append]
      omega
    have h := argumentsFrom_bulks (fun arg ha => hlen arg (List.mem_cons_of_mem _ ha))
      ([] ++ commandHeader (name :: args).length ++ bulkText name) hcount
    rwa [← hpre] at h
  have hname : ∀ (n : ℕ) (t : Bytes), n ≤ name.length → 13 ∉ t ∧ 0 ∉ t → t.map tolower = t →
      (strncaseeq ((commandText (name :: args)).drop
        (([] ++ commandHeader (name :: args).length ++ bulkHeader name).length + n)) (t ++ crlf)
        (t.length + 2) = true ↔ (name.drop n).map tolower = t) := by
    intro n t hn ht hlower
    rw [← List.drop_drop, hstr, List.drop_append_of_le_length hn]
    have hplain : ∀ c ∈ t, c ≠ 13 ∧ c ≠ 0 := fun c hc =>
      ⟨fun heq => ht.1 (heq ▸ hc), fun heq => ht.2 (heq ▸ hc)⟩
    exact strncaseeq_line (fun hmem => hcr (List.mem_of_mem_drop hmem)) hplain hlower
  have hp : decide (tolower (((commandText (name :: args)).drop
      ([] ++ commandHeader (name :: args).length ++ bulkHeader name).length).headD 0) = 112) =
        decide (tolower (name.headD 0) = 112) := by
    rw [hstr]
    cases name with
    | nil => rfl
    | cons c name => rfl
  have hpv : (decide (tolower (name.headD 0) = 112)).toNat ≤ name.length := by
    cases name with
    | nil => decide
    | cons c name =>
        have hle := Bool.toNat_le (decide (tolower ((c :: name).headD 0) = 112))
        rw [List.length_cons]
        omega
  have hsub := hname _ (ascii "subscribe") hpv (by decide) (by decide)
  have hunsub := hname _ (ascii "unsubscribe") hpv (by decide) (by decide)
  have hmon := hname _ (ascii "monitor") hpv (by decide) (by decide)
  change strncaseeq _ (ascii "subscribe\x0d\n") 11 = true ↔ _ at hsub
  change strncaseeq _ (ascii "unsubscribe\x0d\n") 13 = true ↔ _ at hunsub
  change strncaseeq _ (ascii "monitor\x0d\n") 9 = true ↔ _ at hmon
  rw [← hcmd] at hnext
  rw [asyncKind, ← List.length_nil (α := UInt8), hnext]
  dsimp only
  rw [hp, asyncKindOf, hargs]
  simp only [hmore, hsub, hunsub, hmon]
  split_ifs <;> rfl

/-- **What is formatted is read back.**  When `redisAsyncCommandArgv` formats its arguments, the
functions that look into the text find the arguments again: what is done with the command
depends on its name and on whether it has arguments, and the channels of a subscription are the
arguments after the name. -/
theorem format_sds_kind {argv : List Bytes} {argvlen : Option (List ℕ)} {name : Bytes}
    {args : List Bytes} (h : argTexts argv argvlen = some (name :: args))
    (hshort : ((commandText (name :: args)).length : ℤ) < intMax) (hcr : 13 ∉ name) :
    ∃ cmd, redisFormatSdsCommandArgv true argv argvlen = some (.ok (cmd, cmd.length)) ∧
      asyncKind cmd = some (asyncKindOf name args) := by
  refine ⟨_, redisFormatSdsCommandArgv_short h hshort, asyncKind_text (fun arg harg => ?_) hcr⟩
  have hlen := length_lt_intMax_of_short hshort arg harg
  unfold intMax at hlen
  omega

theorem format_sds_kind_subscribe :
    ∃ cmd, redisFormatSdsCommandArgv true [ascii "PSUBSCRIBE", ascii "news.*"] (some [10, 6]) =
        some (.ok (cmd, cmd.length)) ∧
      asyncKind cmd = some (asyncKindOf (ascii "PSUBSCRIBE") [ascii "news.*"]) :=
  format_sds_kind (by decide) (by decide) (by decide)

end RedisMigrate
