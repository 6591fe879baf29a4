import RedisMigrate.CommandFormat

/-! # Commands from a format

`redisvFormatCommand` of `hiredis/hiredis.c`: a format in the manner of `printf` whose spaces
separate the arguments of the command.  `nextToken` is what one turn of its loop finds at `c`,
`formatTurn` what the turn does with it.  A turn is undefined where the code reads behind the
format, or takes a value that the caller did not pass in that type.

The tokens of a format do not depend on the values, and `format_command` says what this gives: the
arguments are the words of the format, each with its own values put in. -/

namespace RedisMigrate

/-! ### Values and conversions -/

/-- A value of the `va_list`; a pointer comes with the object that it points to. -/
inductive VaArg where
  | ptr (object : Bytes)
  | size (n : ℕ)
  | int (i : ℤ)
  | long (i : ℤ)
  | longLong (i : ℤ)
  | double (x : Double)

/-- The type that `va_arg` takes for a conversion. -/
inductive Conv where
  | int
  | long
  | longLong
  | double
deriving DecidableEq, Repr

def VaArg.hasType : VaArg → Conv → Bool
  | .int _, .int => true
  | .long _, .long => true
  | .longLong _, .longLong => true
  | .double _, .double => true
  | _, _ => false

/-- What `vsnprintf` makes of a format with one conversion. -/
abbrev Printf := Bytes → VaArg → Bytes

/-- `"diouxX"`, `"eEfFgGaA"`, `"#0-+ "`. -/
def intfmts : List UInt8 := [100, 105, 111, 117, 120, 88]

def doublefmts : List UInt8 := [101, 69, 102, 70, 103, 71, 97, 65]

def flags : List UInt8 := [35, 48, 45, 43, 32]

def isdigit (c : UInt8) : Bool := 48 ≤ c.toNat && c.toNat ≤ 57

/-- `strchr(set, *p) != NULL`; the NUL at the end of `p` is in every set. -/
def strchr (set : List UInt8) : Bytes → Bool
  | [] => true
  | c :: _ => c ∈ set

/-- `*p != '\0' && strchr(set, *p) != NULL`. -/
def strchrNotNul (set : List UInt8) : Bytes → Bool
  | [] => false
  | c :: _ => c ∈ set

/-- The flags, the field width and the precision are passed over. -/
def skipModifiers (p : Bytes) : Bytes :=
  let p := (p.dropWhile (· ∈ flags)).dropWhile isdigit
  if p.head? = some 46 then p.tail.dropWhile isdigit else p

/-- The type of an integer with the sizes `hh`, `h`, `ll` and `l`, and where the letter is. -/
def sizedConv : Bytes → Option (Conv × Bytes)
  | 104 :: 104 :: p => if strchrNotNul intfmts p then some (.int, p) else none
  | 104 :: p => if strchrNotNul intfmts p then some (.int, p) else none
  | 108 :: 108 :: p => if strchrNotNul intfmts p then some (.longLong, p) else none
  | 108 :: p => if strchrNotNul intfmts p then some (.long, p) else none
  | _ => none

/-- The conversion at `p`, and `_p` at `fmt_valid`; `none` at `fmt_invalid`. -/
def scanConv (p : Bytes) : Option (Conv × Bytes) :=
  let p := skipModifiers p
  if strchr intfmts p then some (.int, p)
  else if strchr doublefmts p then some (.double, p)
  else sizedConv p

theorem skipModifiers_suffix (p : Bytes) : skipModifiers p <:+ p := by
  have h := (List.dropWhile_suffix isdigit (l := p.dropWhile (· ∈ flags))).trans
    (List.dropWhile_suffix (· ∈ flags))
  unfold skipModifiers
  dsimp only
  split_ifs
  · exact ((List.dropWhile_suffix isdigit).trans (List.tail_suffix _)).trans h
  · exact h

theorem sizedConv_suffix {p q : Bytes} {conv : Conv} (h : sizedConv p = some (conv, q)) :
    q <:+ p := by
  unfold sizedConv at h
  split at h
  · split_ifs at h
    cases h
    exact (List.suffix_cons _ _).trans (List.suffix_cons _ _)
  · split_ifs at h
    cases h
    exact List.suffix_cons _ _
  · split_ifs at h
    cases h
    exact (List.suffix_cons _ _).trans (List.suffix_cons _ _)
  · split_ifs at h
    cases h
    exact List.suffix_cons _ _
  · cases h

theorem scanConv_suffix {p q : Bytes} {conv : Conv} (h : scanConv p = some (conv, q)) :
    q <:+ p := by
  have hskip := skipModifiers_suffix p
  unfold scanConv at h
  dsimp only at h
  split_ifs at h
  · cases h
    exact hskip
  · cases h
    exact hskip
  · exact (sizedConv_suffix h).trans hskip

/-! ### Tokens -/

/-- What the loop finds in a format. -/
inductive Token where
  | space
  | byte (c : UInt8)
  | str
  | bin
  | conv (type : Conv) (format : Bytes)
  | skipped (type : Conv)
deriving DecidableEq, Repr

/-- How the loop ends: at the NUL, with a format error, or behind the NUL. -/
inductive FormatEnd where
  | done
  | invalid
  | overrun
deriving DecidableEq, Repr

inductive TokenStep where
  | token (t : Token) (c : Bytes)
  | stop (e : FormatEnd)

/-- A conversion that ends at `_p`; `n` is `_p - (c+1)`.  It has to fit `_format`, and one that
does not is passed over with its first character. -/
def convToken (rest : Bytes) (conv : Conv) (p : Bytes) : TokenStep :=
  let n := rest.length - p.length
  if n + 2 < 14 then
    match p with
    | [] => .stop .overrun
    | _ :: q => .token (.conv conv (37 :: rest.take (n + 1))) q
  else .token (.skipped conv) rest.tail

def percentToken (rest : Bytes) : TokenStep :=
  if rest.head? = some 115 then .token .str rest.tail
  else if rest.head? = some 98 then .token .bin rest.tail
  else if rest.head? = some 37 then .token (.byte 37) rest.tail
  else match scanConv rest with
    | none => .stop .invalid
    | some (conv, p) => convToken rest conv p

/-- What is at `c`, and where the loop goes on. -/
def nextToken : Bytes → TokenStep
  | [] => .stop .done
  | x :: rest =>
      if x ≠ 37 ∨ rest = [] then .token (if x = 32 then .space else .byte x) rest
      else percentToken rest

theorem convToken_lt {rest p c : Bytes} {conv : Conv} {t : Token} (hp : p <:+ rest)
    (h : convToken rest conv p = .token t c) : c.length < rest.length + 1 := by
  have hle := hp.length_le
  unfold convToken at h
  dsimp only at h
  split_ifs at h
  · cases p with
    | nil => cases h
    | cons x q =>
        cases h
        rw [List.length_cons] at hle
        omega
  · cases h
    rw [List.length_tail]
    omega

theorem nextToken_lt {c c' : Bytes} {t : Token} (h : nextToken c = .token t c') :
    c'.length < c.length := by
  cases c with
  | nil => cases h
  | cons x rest =>
      have htail : rest.tail.length < rest.length + 1 := by
        rw [List.length_tail]
        omega
      rw [nextToken] at h
      split_ifs at h
      · cases h
        exact Nat.lt_succ_self _
      · cases h
        exact Nat.lt_succ_self _
      · unfold percentToken at h
        split_ifs at h
        · cases h
          exact htail
        · cases h
          exact htail
        · cases h
          exact htail
        · cases hs : scanConv rest with
          | none =>
              rw [hs] at h
              cases h
          | some cp =>
              obtain ⟨conv, p⟩ := cp
              rw [hs] at h
              exact convToken_lt (scanConv_suffix hs) h

def tokensFuel : ℕ → Bytes → List Token × FormatEnd
  | 0, _ => ([], .done)
  | n + 1, c =>
      match nextToken c with
      | .stop e => ([], e)
      | .token t c' => (t :: (tokensFuel n c').1, (tokensFuel n c').2)

/-- The tokens of a format and how it ends. -/
def tokens (c : Bytes) : List Token × FormatEnd := tokensFuel (c.length + 1) c

theorem tokensFuel_eq {n : ℕ} {c : Bytes} (hn : c.length < n) : tokensFuel n c = tokens c := by
  induction n using Nat.strongRecOn generalizing c with
  | ind n ih =>
      obtain ⟨m, rfl⟩ : ∃ m, n = m + 1 := ⟨n - 1, by omega⟩
      rw [tokens, tokensFuel, tokensFuel]
      cases h : nextToken c with
      | stop e => rfl
      | token t c' =>
          have hlt := nextToken_lt h
          dsimp only
          rw [ih m (by omega) (by omega), ih c.length (by omega) hlt]

theorem tokens_stop {c : Bytes} {e : FormatEnd} (h : nextToken c = .stop e) :
    tokens c = ([], e) := by
  rw [tokens, tokensFuel, h]

theorem tokens_token {c c' : Bytes} {t : Token} (h : nextToken c = .token t c') :
    tokens c = (t :: (tokens c').1, (tokens c').2) := by
  rw [tokens, tokensFuel, h]
  dsimp only
  rw [tokensFuel_eq (nextToken_lt h)]

/-! ### The loop over the format -/

section loop

variable (printf : Printf)

/-- What a token puts into the current argument, and the values that are left. -/
def Token.render : Token → List VaArg → Option (Bytes × List VaArg)
  | .byte c, va => some ([c], va)
  | .str, .ptr object :: va => (cString object).map fun text => (text, va)
  | .bin, .ptr object :: .size n :: va => (sizedString object n).map fun text => (text, va)
  | .conv type format, arg :: va =>
      if arg.hasType type then some (printf format arg, va) else none
  | .skipped type, arg :: va => if arg.hasType type then some ([], va) else none
  | _, _ => none

/-- The variables of `redisvFormatCommand`; `failed` after `goto format_err`. -/
structure FormatState where
  c : Bytes
  va : List VaArg
  curarg : Bytes
  touched : Bool
  curargv : List Bytes
  totlen : ℤ
  failed : Bool

/-- `curarg` becomes the next argument. -/
def FormatState.push (s : FormatState) : FormatState :=
  { s with
    curargv := s.curargv ++ [s.curarg]
    totlen := intAddSize s.totlen (bulklen s.curarg.length)
    curarg := []
    touched := false }

def FormatState.stop (s : FormatState) : FormatEnd → Turn FormatState
  | .done => .leave
  | .invalid => .again { s with failed := true }
  | .overrun => .undefined

def FormatState.take (s : FormatState) (t : Token) (c : Bytes) : Turn FormatState :=
  if t = .space then .again { (if s.touched then s.push else s) with c }
  else match t.render printf s.va with
    | none => .undefined
    | some (text, va) => .again { s with c, va, curarg := s.curarg ++ text, touched := true }

def formatTurn (s : FormatState) : Turn FormatState :=
  if s.failed then .leave
  else match nextToken s.c with
    | .stop e => s.stop e
    | .token t c => s.take printf t c

theorem formatTurn_stop {s : FormatState} {e : FormatEnd} (hf : s.failed = false)
    (h : nextToken s.c = .stop e) : formatTurn printf s = s.stop e := by
  rw [formatTurn, hf, h]
  rfl

theorem formatTurn_token {s : FormatState} {t : Token} {c : Bytes} (hf : s.failed = false)
    (h : nextToken s.c = .token t c) : formatTurn printf s = s.take printf t c := by
  rw [formatTurn, hf, h]
  rfl

theorem take_space (s : FormatState) (c : Bytes) :
    s.take printf .space c = .again { (if s.touched then s.push else s) with c } := if_pos rfl

theorem take_none {s : FormatState} {t : Token} {c : Bytes} (ht : t ≠ .space)
    (h : t.render printf s.va = none) : s.take printf t c = .undefined := by
  rw [FormatState.take, if_neg ht, h]

theorem take_some {s : FormatState} {t : Token} {c : Bytes} {r : Bytes × List VaArg}
    (ht : t ≠ .space) (h : t.render printf s.va = some r) : s.take printf t c =
      .again { s with c, va := r.2, curarg := s.curarg ++ r.1, touched := true } := by
  rw [FormatState.take, if_neg ht, h]

def formatLoop : Loop FormatState where
  turn := formatTurn printf
  variant s := if s.failed then 0 else s.c.length + 1
  decreases := by
    intro s s' h
    cases hf : s.failed with
    | true =>
        rw [formatTurn, hf] at h
        cases h
    | false =>
        cases hn : nextToken s.c with
        | stop e =>
            rw [formatTurn_stop printf hf hn] at h
            cases e with
            | done => cases h
            | invalid =>
                cases h
                exact Nat.succ_pos _
            | overrun => cases h
        | token t c =>
            have hlt := nextToken_lt hn
            rw [formatTurn_token printf hf hn] at h
            by_cases ht : t = .space
            · subst ht
              rw [take_space] at h
              cases h
              cases s.touched with
              | true => simpa [FormatState.push, hf] using hlt
              | false => simpa [hf] using hlt
            · cases hr : t.render printf s.va with
              | none =>
                  rw [take_none printf ht hr] at h
                  cases h
              | some r =>
                  rw [take_some printf ht hr] at h
                  cases h
                  simpa [hf] using hlt

/-- The command after the loop. -/
def finishFormat (alloc : Allocator) (s : FormatState) : Option (Except FormatErr (Bytes × ℤ)) :=
  if s.failed then some (.error .format)
  else
    let s := if s.touched then s.push else s
    buildCommand alloc (intAddSize s.totlen (1 + countDigits s.curargv.length + 2)) s.curargv

def redisvFormatCommand (alloc : Allocator) (format : Bytes) (va : List VaArg) :
    Option (Except FormatErr (Bytes × ℤ)) :=
  (cString format).bind fun c =>
    ((formatLoop printf).run ⟨c, va, [], false, [], 0, false⟩).bind (finishFormat alloc)

end loop

/-! ### The words of a format -/

/-- The words after the beginning `w` of a word. -/
def wordsFrom : List Token → List Token → List (List Token)
  | w, [] => if w = [] then [] else [w]
  | w, .space :: ts => if w = [] then wordsFrom [] ts else w :: wordsFrom [] ts
  | w, t :: ts => wordsFrom (w ++ [t]) ts

/-- The tokens between the spaces. -/
def words (ts : List Token) : List (List Token) := wordsFrom [] ts

theorem wordsFrom_space (w ts : List Token) :
    wordsFrom w (.space :: ts) = if w = [] then wordsFrom [] ts else w :: wordsFrom [] ts := by
  rw [wordsFrom]

theorem wordsFrom_token {t : Token} (ht : t ≠ .space) (w ts : List Token) :
    wordsFrom w (t :: ts) = wordsFrom (w ++ [t]) ts := by
  cases t with
  | space => exact absurd rfl ht
  | byte c => rfl
  | str => rfl
  | bin => rfl
  | conv type format => rfl
  | skipped type => rfl

/-- A word that was begun is the first one. -/
theorem wordsFrom_begun {w : List Token} (hw : w ≠ []) (ts : List Token) :
    ∃ more ws, wordsFrom w ts = (w ++ more) :: ws := by
  induction ts generalizing w with
  | nil => exact ⟨[], [], by simp [wordsFrom, hw]⟩
  | cons t ts ih =>
      by_cases ht : t = .space
      · subst ht
        exact ⟨[], wordsFrom [] ts, by simp [wordsFrom_space, hw]⟩
      · obtain ⟨more, ws, h⟩ := ih (show w ++ [t] ≠ [] by simp)
        exact ⟨t :: more, ws, by rw [wordsFrom_token ht, h]; simp⟩

section render

variable (printf : Printf)

/-- A word with its values put in. -/
def renderWord : List Token → List VaArg → Option (Bytes × List VaArg)
  | [], va => some ([], va)
  | t :: ts, va => (t.render printf va).bind fun r =>
      (renderWord ts r.2).map fun r' => (r.1 ++ r'.1, r'.2)

/-- The words, each with its values put in, and the values that are left. -/
def renderWords : List (List Token) → List VaArg → Option (List Bytes × List VaArg)
  | [], va => some ([], va)
  | w :: ws, va => (renderWord printf w va).bind fun r =>
      (renderWords ws r.2).map fun r' => (r.1 :: r'.1, r'.2)

theorem renderWord_append (w w' : List Token) (va : List VaArg) :
    renderWord printf (w ++ w') va = (renderWord printf w va).bind fun r =>
      (renderWord printf w' r.2).map fun r' => (r.1 ++ r'.1, r'.2) := by
  induction w generalizing va with
  | nil => simp [renderWord]
  | cons t w ih =>
      rw [List.cons_append, renderWord, renderWord]
      cases t.render printf va with
      | none => rfl
      | some r =>
          simp only [Option.bind_some, ih]
          cases renderWord printf w r.2 with
          | none => rfl
          | some r' => simp [Function.comp_def]

/-- The arguments of the command after the loop. -/
def FormatState.argv (s : FormatState) : List Bytes :=
  if s.touched then s.curargv ++ [s.curarg] else s.curargv

/-- What the loop leaves: arguments, or a format error. -/
def FormatState.result (s : FormatState) : Except FormatErr (List Bytes) :=
  if s.failed then .error .format else .ok s.argv

/-- What becomes of the arguments at the end of a format. -/
def FormatEnd.result (args : List Bytes) : FormatEnd → Option (Except FormatErr (List Bytes))
  | .done => some (.ok args)
  | .invalid => some (.error .format)
  | .overrun => none

variable {printf}

theorem loop_run_failed {s : FormatState} (hf : s.failed = true) :
    (formatLoop printf).run s = some s := by
  apply Loop.run_leave
  show formatTurn printf s = .leave
  rw [formatTurn, hf]
  rfl

theorem renderWord_token {t : Token} {w : List Token} {va va' : List VaArg} {text : Bytes}
    (hw : renderWord printf w va = some (text, va')) :
    renderWord printf (w ++ [t]) va =
      (t.render printf va').map fun r => (text ++ r.1, r.2) := by
  rw [renderWord_append, hw, Option.bind_some, renderWord]
  cases t.render printf va' with
  | none => rfl
  | some r => simp [renderWord]

/-- Nothing comes of the words when the first one cannot be rendered. -/
theorem renderWords_begun {w : List Token} {va : List VaArg} (hw : w ≠ [])
    (h : renderWord printf w va = none) (ts : List Token) :
    renderWords printf (wordsFrom w ts) va = none := by
  obtain ⟨more, ws, heq⟩ := wordsFrom_begun hw ts
  rw [heq, renderWords, renderWord_append, h]
  rfl

/-- The loop in a state whose current argument is the word `w` so far. -/
theorem formatLoop_run {s : FormatState} {w : List Token} {va : List VaArg} (hf : s.failed = false)
    (hw : renderWord printf w va = some (s.curarg, s.va)) (ht : s.touched = decide (w ≠ [])) :
    ((formatLoop printf).run s).map FormatState.result =
      (renderWords printf (wordsFrom w (tokens s.c).1) va).bind fun r =>
        (tokens s.c).2.result (s.curargv ++ r.1) := by
  induction hlen : s.c.length using Nat.strongRecOn generalizing s w va with
  | ind n ih =>
      cases hn : nextToken s.c with
      | stop e =>
          have hturn : (formatLoop printf).turn s = s.stop e := formatTurn_stop printf hf hn
          have hwords : (renderWords printf (wordsFrom w []) va).map Prod.fst =
              some (if s.touched then [s.curarg] else []) := by
            rw [wordsFrom, ht]
            by_cases hnil : w = []
            · simp [hnil, renderWords]
            · simp [hnil, renderWords, hw]
          obtain ⟨r, hr, hargs⟩ := Option.map_eq_some_iff.mp hwords
          rw [tokens_stop hn]
          dsimp only
          rw [hr, Option.bind_some, hargs]
          cases e with
          | done =>
              rw [Loop.run_leave hturn, Option.map_some, FormatState.result, hf]
              cases htouch : s.touched with
              | true => simp [FormatState.argv, FormatEnd.result, htouch]
              | false => simp [FormatState.argv, FormatEnd.result, htouch]
          | invalid =>
              rw [Loop.run_again hturn, loop_run_failed rfl]
              rfl
          | overrun =>
              rw [Loop.run_undefined hturn]
              rfl
      | token t c =>
          have hlt := nextToken_lt hn
          have hturn : (formatLoop printf).turn s = s.take printf t c :=
            formatTurn_token printf hf hn
          rw [tokens_token hn]
          dsimp only
          by_cases hspace : t = .space
          · subst hspace
            rw [take_space] at hturn
            rw [Loop.run_again hturn, wordsFrom_space]
            by_cases hnil : w = []
            · subst hnil
              have htouch : s.touched = false := by simpa using ht
              have hcur : s.curarg = [] ∧ s.va = va := by
                rw [renderWord, Option.some.injEq, Prod.mk.injEq] at hw
                exact ⟨hw.1.symm, hw.2.symm⟩
              rw [htouch, if_pos rfl, if_neg Bool.false_ne_true]
              refine ih c.length (by omega) (w := []) hf ?_ ?_ rfl
              · simp [renderWord, hcur.1, hcur.2]
              · simpa using htouch
            · have htouch : s.touched = true := by simpa [hnil] using ht
              rw [htouch, if_neg hnil, if_pos rfl, renderWords, hw, Option.bind_some]
              have hstart : renderWord printf [] s.va =
                  some (({ s.push with c } : FormatState).curarg,
                    ({ s.push with c } : FormatState).va) := rfl
              rw [ih c.length (by omega) (s := { s.push with c }) hf hstart rfl rfl]
              cases renderWords printf (wordsFrom [] (tokens c).1) s.va with
              | none => rfl
              | some r => simp [FormatState.push]
          · rw [wordsFrom_token hspace]
            have hword := renderWord_token (t := t) hw
            cases hr : t.render printf s.va with
            | none =>
                rw [take_none printf hspace hr] at hturn
                rw [hr] at hword
                rw [Loop.run_undefined hturn, renderWords_begun (by simp) hword]
                rfl
            | some r =>
                rw [take_some printf hspace hr] at hturn
                rw [hr] at hword
                rw [Loop.run_again hturn]
                exact ih c.length (by omega) (w := w ++ [t]) hf hword (by simp) rfl

/-! ### The command of a format -/

/-- `totlen` is the length of the texts of the arguments so far. -/
def FormatState.Counted (s : FormatState) : Prop :=
  s.totlen = wrapInt (s.curargv.flatMap bulkText).length

theorem FormatState.Counted.push {s : FormatState} (hs : s.Counted) : s.push.Counted := by
  unfold FormatState.Counted at hs ⊢
  simp only [FormatState.push, hs, intAddSize_wrapInt, List.flatMap_append, List.flatMap_singleton,
    List.length_append, length_bulkText, Nat.cast_add]

theorem FormatState.Counted.run {s s' : FormatState} (hs : s.Counted)
    (h : (formatLoop printf).run s = some s') : s'.Counted := by
  refine (Loop.run_inv (I := FormatState.Counted) ?_ hs h).1
  intro s s' hs h
  cases hf : s.failed with
  | true =>
      have hleave : formatTurn printf s = .leave := by
        rw [formatTurn, hf]
        rfl
      rw [show (formatLoop printf).turn s = .leave from hleave] at h
      cases h
  | false =>
      cases hn : nextToken s.c with
      | stop e =>
          rw [show (formatLoop printf).turn s = s.stop e from formatTurn_stop printf hf hn] at h
          cases e with
          | done => cases h
          | invalid =>
              cases h
              exact hs
          | overrun => cases h
      | token t c =>
          rw [show (formatLoop printf).turn s = s.take printf t c from
            formatTurn_token printf hf hn] at h
          by_cases ht : t = .space
          · subst ht
            rw [take_space] at h
            cases h
            cases s.touched with
            | true => exact hs.push
            | false => exact hs
          · cases hr : t.render printf s.va with
            | none =>
                rw [take_none printf ht hr] at h
                cases h
            | some r =>
                rw [take_some printf ht hr] at h
                cases h
                exact hs

/-- The command of the arguments that the loop leaves. -/
def commandOf (alloc : Allocator) : Except FormatErr (List Bytes) →
    Option (Except FormatErr (Bytes × ℤ))
  | .error e => some (.error e)
  | .ok args => buildCommand alloc (wrapInt (commandText args).length) args

theorem finishFormat_eq {alloc : Allocator} {s : FormatState} (hs : s.Counted) :
    finishFormat alloc s = commandOf alloc s.result := by
  have htot : ∀ args : List Bytes, intAddSize (wrapInt (args.flatMap bulkText).length)
      (1 + countDigits args.length + 2) = wrapInt (commandText args).length := by
    intro args
    rw [intAddSize_wrapInt, commandText, List.length_append, length_commandHeader]
    congr 1
    push_cast
    omega
  have hcount : s.totlen = wrapInt (s.curargv.flatMap bulkText).length := hs
  have hpush : s.push.totlen = wrapInt (s.push.curargv.flatMap bulkText).length := hs.push
  unfold finishFormat FormatState.result FormatState.argv
  cases s.failed with
  | true => rfl
  | false =>
      cases s.touched with
      | false =>
          simp only [Bool.false_eq_true, if_false]
          rw [hcount, htot, commandOf]
      | true =>
          simp only [Bool.false_eq_true, if_false, if_true]
          rw [hpush, htot, commandOf]
          rfl

/-- `redisvFormatCommand` by the words of the format. -/
theorem redisvFormatCommand_eq {alloc : Allocator} {format c : Bytes} (h : cString format = some c)
    (va : List VaArg) : redisvFormatCommand printf alloc format va =
      ((renderWords printf (words (tokens c).1) va).bind fun r => (tokens c).2.result r.1).bind
        (commandOf alloc) := by
  have hstart : renderWord printf [] va = some ([], va) := rfl
  have hcount : (⟨c, va, [], false, [], 0, false⟩ : FormatState).Counted := by
    show (0 : ℤ) = wrapInt 0
    decide
  have hrun := formatLoop_run (s := ⟨c, va, [], false, [], 0, false⟩) rfl hstart rfl
  simp only [List.nil_append] at hrun
  rw [redisvFormatCommand, h, Option.bind_some, words, ← hrun]
  cases hs : (formatLoop printf).run ⟨c, va, [], false, [], 0, false⟩ with
  | none => rfl
  | some s => exact finishFormat_eq (hcount.run hs)

theorem redisvFormatCommand_ok_iff {format c : Bytes} (h : cString format = some c)
    {alloc : Allocator} {va : List VaArg} {cmd : Bytes} {len : ℤ} :
    redisvFormatCommand printf alloc format va = some (.ok (cmd, len)) ↔
      (tokens c).2 = .done ∧ ∃ args unused,
        renderWords printf (words (tokens c).1) va = some (args, unused) ∧
        ((commandText args).length : ℤ) < intMax ∧
        (alloc.malloc ((commandText args).length + 1)).isSome ∧
        cmd = commandText args ++ [0] ∧ len = (commandText args).length := by
  rw [redisvFormatCommand_eq h]
  cases hr : renderWords printf (words (tokens c).1) va with
  | none => simp
  | some r =>
      obtain ⟨args, unused⟩ := r
      cases he : (tokens c).2 with
      | done =>
          rw [Option.bind_some, FormatEnd.result, Option.bind_some, commandOf,
            buildCommand_eq_ok_iff]
          constructor
          · intro hok
            exact ⟨rfl, args, unused, rfl, hok⟩
          · rintro ⟨-, args', unused', heq, hok⟩
            cases heq
            exact hok
      | invalid => simp [FormatEnd.result, commandOf]
      | overrun => simp [FormatEnd.result]

example : (tokens (ascii "SET key %0")).2 = .overrun := by decide

end render

end RedisMigrate
