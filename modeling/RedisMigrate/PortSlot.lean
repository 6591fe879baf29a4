import RedisMigrate.ModuleRuns

/-! # Port and slot

The two numbers of a request are parsed as `double`, cut to `int` in the call of
`createMigrateObject` and widened to `size_t` in the record, with no check on the way.
`storedAs_iff` says which values survive that: the integers of `int` that are not negative.
`stored_or_refused_iff` says which requests store the numbers that they were given. -/

namespace RedisMigrate

/-- An integer that both `int` and `size_t` hold. -/
def Double.Fits (d : Double) : Prop := ∃ n : ℕ, n ≤ 2147483647 ∧ d = .finite n

/-- `v` is the number `d`, and `double` to `int` to `size_t` is defined for `d`: each value on the
way is in the range of the next type. -/
structure Double.StoredAs (d : Double) (v : BitVec 64) : Prop where
  value : d = .finite v.toNat
  defined : ∃ i, d.trunc = some i ∧ InInt i ∧ 0 ≤ i

theorem trunc_natCast (n : ℕ) : (Double.finite n).trunc = some (n : ℤ) := by
  rw [Double.trunc, Rat.num_natCast, Rat.den_natCast]
  simp

theorem sizeOfInt_ofInt {n : ℕ} (h : n ≤ 2147483647) :
    (sizeOfInt (BitVec.ofInt 32 n)).toNat = n := by
  have hmsb : (BitVec.ofNat 32 n).msb = false := by
    rw [BitVec.msb_eq_false_iff_two_mul_lt, BitVec.toNat_ofNat]
    omega
  rw [sizeOfInt, BitVec.ofInt_natCast, BitVec.toNat_signExtend, hmsb, BitVec.toNat_setWidth,
    BitVec.toNat_ofNat]
  simp only [Bool.false_eq_true, if_false]
  omega

/-- The record holds the number of the request exactly when that number is an integer from `0` to
the largest `int`. -/
theorem storedAs_iff {undef : Double → BitVec 32} {d : Double} :
    d.StoredAs (sizeOfInt (intOfDouble undef d)) ↔ d.Fits := by
  constructor
  · rintro ⟨hvalue, i, htrunc, hint, -⟩
    refine ⟨_, ?_, hvalue⟩
    rw [hvalue, trunc_natCast] at htrunc
    obtain rfl := Option.some.inj htrunc
    have := hint.2
    omega
  · rintro ⟨n, hle, rfl⟩
    have hint : InInt n := ⟨by omega, by omega⟩
    have hvalue : intOfDouble undef (.finite n) = BitVec.ofInt 32 n := by
      simp only [intOfDouble, trunc_natCast, if_pos hint]
    refine ⟨?_, n, trunc_natCast n, hint, by omega⟩
    rw [hvalue, sizeOfInt_ofInt hle]

/-- An executed request that is answered `OK` leaves its two numbers in the record of its key, and
a request whose numbers do not fit leaves the registry alone and, when executed, is an error. -/
structure StoredOrRefused (ctx : RedisModuleCtx) (argv : List RedisModuleString) (s : Module)
    (key : RedisModuleString) (port slot : Double) : Prop where
  stored : ctx.isKeysPositionRequest = false →
    (rmMigrateCommand ctx argv s).reply = .simpleString "OK" →
    ∃ m, (rmMigrateCommand ctx argv s).mod.migrating.lookup key.bytes = some m ∧
      port.StoredAs m.port ∧ slot.StoredAs m.slot
  refused : ¬ (port.Fits ∧ slot.Fits) →
    (rmMigrateCommand ctx argv s).mod.migrating = s.migrating ∧
      (ctx.isKeysPositionRequest = false → (rmMigrateCommand ctx argv s).reply.IsError)

section request

variable {ctx : RedisModuleCtx} {s : Module} {name host portArg slotArg key : RedisModuleString}
  {port slot : Double}

/-- A request that does not reach the registration stores nothing. -/
theorem storedOrRefused_of_not_accepts {argv : List RedisModuleString}
    (h : ∀ host key port slot, ¬ Accepts ctx argv s host key port slot) :
    StoredOrRefused ctx argv s key port slot := by
  constructor
  · intro hx hok
    obtain ⟨host, key, port, slot, ha⟩ := accepts_of_reply hx hok
    exact absurd ha (h host key port slot)
  · intro _
    have he := rmMigrateCommand_effect ctx argv s
    generalize (rmMigrateCommand ctx argv s).mod = s' at he ⊢
    generalize (rmMigrateCommand ctx argv s).reply = r at he ⊢
    cases he with
    | refused msg mLog => exact ⟨rfl, fun _ => trivial⟩
    | keys _ hk =>
        refine ⟨rfl, ?_⟩
        intro hx
        rw [hx] at hk
        cases hk
    | accepted mLog ha => exact absurd ha (h _ _ _ _)

/-- A request that reaches the registration is fine exactly when its numbers fit. -/
theorem storedOrRefused_of_accepts {argv : List RedisModuleString}
    (ha : Accepts ctx argv s host key port slot) :
    StoredOrRefused ctx argv s key port slot ↔ port.Fits ∧ slot.Fits := by
  obtain ⟨hok, hm, -⟩ := rmMigrateCommand_of_accepts ha
  constructor
  · intro h
    by_contra hfit
    have herr := (h.refused hfit).2 ha.executed
    rw [hok] at herr
    exact herr
  · intro hfit
    constructor
    · intro _ _
      refine ⟨newRecord ctx s host key port slot, ?_, ?_, ?_⟩
      · rw [hm, Finmap.lookup_insert]
      · exact storedAs_iff.mpr hfit.1
      · exact storedAs_iff.mpr hfit.2
    · intro hn
      exact absurd hfit hn

/-- **When port and slot are stored without loss or refused**: when the request does not reach the
registration (a keys-position request, a full registry, a key that is already migrating), or
both numbers are integers from `0` to the largest `int`. -/
theorem stored_or_refused_iff (hport : ctx.stringToDouble portArg = some port)
    (hslot : ctx.stringToDouble slotArg = some slot) :
    StoredOrRefused ctx [name, host, portArg, slotArg, key] s key port slot ↔
      ctx.isKeysPositionRequest = true ∨ maxMigrateingNum ≤ s.migrating.size ∨
        0 < (findMigrating s.migrating key.bytes).hostLen ∨ (port.Fits ∧ slot.Fits) := by
  by_cases ha : Accepts ctx [name, host, portArg, slotArg, key] s host key port slot
  · rw [storedOrRefused_of_accepts ha]
    have hroom := ha.room
    have hfree := ha.free
    have hx : ¬ ctx.isKeysPositionRequest = true := by simp [ha.executed]
    constructor
    · intro hfit
      exact .inr (.inr (.inr hfit))
    · rintro (h | h | h | h)
      · exact absurd h hx
      · omega
      · omega
      · exact h
  · apply iff_of_true
    · apply storedOrRefused_of_not_accepts
      intro host' key' port' slot' ha'
      obtain ⟨rfl, rfl, hp, hs⟩ := ha'.args
      obtain rfl : port = port' := Option.some.inj (hport.symm.trans hp)
      obtain rfl : slot = slot' := Option.some.inj (hslot.symm.trans hs)
      exact ha ha'
    · by_contra hcond
      rw [not_or, not_or, not_or] at hcond
      obtain ⟨hx, hroom, hfree, -⟩ := hcond
      exact ha ⟨⟨name, portArg, slotArg, rfl, hport, hslot⟩, by simpa using hx, by omega, by omega⟩

end request

/-- `rm.migrate h 1 1 a` on an empty registry. -/
theorem stored_or_refused_plain :
    StoredOrRefused plainCtx (plainRequest [104] [97]) .initial ⟨4, [97]⟩ (.finite 1) (.finite 1) :=
  (stored_or_refused_iff rfl rfl).mpr
    (.inr (.inr (.inr ⟨⟨1, by decide, rfl⟩, ⟨1, by decide, rfl⟩⟩)))

/-- Answers under which the argument `-1` is the number `-1` and every other argument is `1`. -/
def minusOneCtx : RedisModuleCtx :=
  { plainCtx with
    stringToDouble := fun arg => some (if arg.bytes = ascii "-1" then .finite (-1) else .finite 1) }

/-- `rm.migrate h -1 1 a` is answered `OK`. -/
theorem negative_port_accepted :
    ¬ ∀ (ctx : RedisModuleCtx) (s : Module) (name host portArg slotArg key : RedisModuleString)
        (port slot : Double), moduleLts.Reachable s → ctx.isKeysPositionRequest = false →
      ctx.stringToDouble portArg = some port → ctx.stringToDouble slotArg = some slot →
      StoredOrRefused ctx [name, host, portArg, slotArg, key] s key port slot := by
  intro h
  have ha : Accepts minusOneCtx
      [⟨0, ascii "rm.migrate"⟩, ⟨1, [104]⟩, ⟨2, ascii "-1"⟩, ⟨3, ascii "1"⟩, ⟨4, [97]⟩] .initial
      ⟨1, [104]⟩ ⟨4, [97]⟩ (.finite (-1)) (.finite 1) :=
    ⟨⟨_, _, _, rfl, rfl, rfl⟩, rfl, by decide, rfl⟩
  have hs := h minusOneCtx .initial ⟨0, ascii "rm.migrate"⟩ ⟨1, [104]⟩ ⟨2, ascii "-1"⟩
    ⟨3, ascii "1"⟩
    ⟨4, [97]⟩ (.finite (-1)) (.finite 1) (.of_init rfl) rfl
    rfl rfl
  obtain ⟨⟨n, -, hn⟩, -⟩ := (storedOrRefused_of_accepts ha).mp hs
  have hnum := congrArg Rat.num (Double.finite.inj hn)
  rw [Rat.num_natCast] at hnum
  have : (-1 : ℚ).num = -1 := rfl
  omega

end RedisMigrate
