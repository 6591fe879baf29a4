import RedisMigrate.CommandTemplate

/-! # Commands on the wire

A command is the text of an array of bulk strings, so a reply reader at the other end reads it
back.

`commands_read_back` says that from a beginning of a stream of commands a reader gets exactly the
commands that are complete in it, in any schedule and without an error.

* `format_read_back`: what a reader gets of a command from a format. -/

namespace RedisMigrate

section texts

variable {strtod : Strtod} {m : ℤ}

/-! ### Texts that end where the stream ends -/

theorem drain_nil : (replyDecoder strtod m).drain [] [] = ([], .ready [] []) :=
  Decoder.drain_wait rfl

theorem Texts.drain_all {vs : List RedisReply} {t : Bytes} (h : Texts strtod m none vs t) :
    (replyDecoder strtod m).drain [] t = (vs, .ready [] []) := by
  have hdrain := h.drain_start []
  rw [List.append_nil, drain_nil, List.append_nil] at hdrain
  exact hdrain

/-- A decoder that is back at the start without a reply has read nothing. -/
theorem eq_nil_of_drain {b : Bytes}
    (h : (replyDecoder strtod m).drain [] b = ([], .ready [] [])) : b = [] := by
  obtain ⟨frames, rest, ⟨t, u, ht, hu, rfl⟩, hstop⟩ := drain_parsed strtod m b
  rw [h] at ht hstop
  dsimp only at ht hstop
  cases hstop with
  | wait _ =>
      cases hu
      simp [ht.eq_nil]

/-- Of two texts of the same replies at the beginning of a stream, neither goes on. -/
theorem Texts.eq_of_append {vs : List RedisReply} {t d : Bytes} (h : Texts strtod m none vs t)
    (h' : Texts strtod m none vs (t ++ d)) : d = [] := by
  have hdrain := h.drain_start d
  rw [h'.drain_all] at hdrain
  apply @eq_nil_of_drain strtod m
  obtain ⟨hvs, hfinal⟩ := Prod.mk.inj hdrain
  rw [Prod.ext_iff]
  exact ⟨List.self_eq_append_right.mp hvs, hfinal.symm⟩

theorem Texts.eq_of_begins {vs : List RedisReply} {t t' b : Bytes} (h : Texts strtod m none vs t)
    (h' : Texts strtod m none vs t') (ht : t <+: b) (ht' : t' <+: b) : t = t' := by
  cases List.prefix_or_prefix_of_prefix ht ht' with
  | inl hle =>
      obtain ⟨d, rfl⟩ := hle
      rw [h.eq_of_append h', List.append_nil]
  | inr hle =>
      obtain ⟨d, rfl⟩ := hle
      rw [h'.eq_of_append h, List.append_nil]

/-- What a beginning of a text gives: the replies that are complete in it. -/
theorem drain_of_begins {vs : List RedisReply} {t b : Bytes} (h : Texts strtod m none vs t)
    (hb : b <+: t) :
    ∃ n u frames rest, (replyDecoder strtod m).drain [] b = (vs.take n, .ready frames rest) ∧
      Texts strtod m none (vs.take n) u ∧ u <+: b ∧
      ∀ k w, Texts strtod m none (vs.take k) w → w <+: b →
        (vs.take k).length ≤ (vs.take n).length := by
  obtain ⟨x, rfl⟩ := hb
  have hall := h.drain_all
  rw [Decoder.drain_append] at hall
  obtain ⟨hvs, hfinal⟩ := Prod.mk.inj hall
  obtain ⟨frames, rest, ⟨u, o, hu, ho, hfed⟩, hstop⟩ := drain_parsed strtod m b
  have htake : ((replyDecoder strtod m).drain [] b).1 =
      vs.take ((replyDecoder strtod m).drain [] b).1.length := by
    rw [← hvs, List.take_left]
  refine ⟨_, u, frames, rest, ?_, htake ▸ hu, ⟨o ++ rest, by rw [hfed]; simp⟩, ?_⟩
  · rw [Prod.ext_iff]
    refine ⟨htake, ?_⟩
    cases hend : ((replyDecoder strtod m).drain [] b).2 with
    | failed e =>
        rw [hend] at hfinal
        cases hfinal
    | ready s r =>
        rw [hend] at hstop
        cases hstop
        rfl
  · intro k w hw hwb
    obtain ⟨y, hy⟩ := hwb
    rw [← htake, ← hy, hw.drain_start, List.length_append]
    omega

/-! ### The texts of commands -/

/-- A command as a reply reader sees it. -/
def asReply (args : List Bytes) : RedisReply :=
  .array .array (args.map fun arg => some (.string .string arg))

theorem itemText_bulk {arg : Bytes} (h : (arg.length : ℤ) < intMax) :
    ItemText strtod m (.leaf (.string .string arg)) (bulkText arg) := by
  have hlen : InLongLong arg.length := by
    unfold intMax at h
    unfold InLongLong
    omega
  have hitem : ItemText strtod m (.leaf (bulkReply .string arg))
      (36 :: decimal arg.length ++ crlf ++ arg ++ [13, 10]) := .bulk rfl rfl hlen nofun
  rw [decimal_of_nonneg] at hitem
  simpa [bulkText, bulkHeader, crlf, bulkReply] using hitem

theorem texts_bulks {args : List Bytes} (h : ∀ arg ∈ args, (arg.length : ℤ) < intMax) :
    Texts strtod m (some .array) (args.map (.string .string)) (args.flatMap bulkText) := by
  induction args with
  | nil => exact .nil
  | cons arg args ih =>
      rw [List.forall_mem_cons] at h
      exact .leaf (itemText_bulk h.1) (by simp) (ih h.2)

theorem length_le_commandText (args : List Bytes) :
    args.length ≤ (commandText args).length ∧
      ∀ arg ∈ args, arg.length ≤ (commandText args).length := by
  rw [commandText, List.length_append]
  suffices h : args.length ≤ (args.flatMap bulkText).length ∧
      ∀ arg ∈ args, arg.length ≤ (args.flatMap bulkText).length by
    exact ⟨by omega, fun arg harg => by have := h.2 arg harg; omega⟩
  induction args with
  | nil => simp
  | cons arg args ih =>
      rw [List.flatMap_cons, List.length_append, length_bulkText, bulklen, List.length_cons,
        List.forall_mem_cons]
      refine ⟨by omega, by omega, fun a ha => ?_⟩
      have hle := ih.2 a ha
      omega

/-- The text of a command is a text of the array of its arguments. -/
theorem encodes_command {args : List Bytes} (h : ((commandText args).length : ℤ) < intMax)
    (hm : m > 0 → intMax ≤ m) : Encodes strtod m (asReply args) (commandText args) := by
  have hle := length_le_commandText args
  have hargs : ∀ arg ∈ args, (arg.length : ℤ) < intMax := by
    intro arg harg
    have := hle.2 arg harg
    omega
  cases args with
  | nil =>
      have hitem : ItemText strtod m (.leaf (.array .array [])) (42 :: decimal 0 ++ crlf) :=
        .empty rfl rfl
      exact .leaf hitem nofun .nil
  | cons arg args =>
      have hlen := hle.1
      have hitem : ItemText strtod m (.aggregate .array args.length)
          (42 :: decimal (arg :: args).length ++ crlf) := by
        unfold intMax at h
        rw [List.length_cons] at hlen
        refine .aggregate rfl rfl ?_ ?_ rfl ?_
        · unfold InLongLong
          rw [List.length_cons]
          omega
        · unfold intMax at hm
          rw [List.length_cons]
          omega
        · omega
      have htext : Texts strtod m none _ _ :=
        .aggregate hitem (by simp) (texts_bulks hargs) .nil
      simpa [asReply, commandText, commandHeader, Function.comp_def] using htext

theorem texts_commands {cmds : List (List Bytes)}
    (h : ∀ args ∈ cmds, ((commandText args).length : ℤ) < intMax) (hm : m > 0 → intMax ≤ m) :
    Texts strtod m none (cmds.map asReply) (cmds.flatMap commandText) := by
  induction cmds with
  | nil => exact .nil
  | cons args cmds ih =>
      rw [List.forall_mem_cons] at h
      exact (encodes_command h.1 hm).append (ih h.2)

/-! ### Reading commands back -/

/-- A stream of commands is read back.  When a reader has been fed a beginning of the texts of
some commands, in whatever pieces, it has no error, and once it is settled it has delivered
the commands that are complete in what it was fed, and no other. -/
theorem commands_read_back {s : Session} (hs : (sessionLts strtod m).Reachable s)
    {cmds : List (List Bytes)} (hcmds : ∀ args ∈ cmds, ((commandText args).length : ℤ) < intMax)
    (hm : m > 0 → intMax ≤ m) (hfed : s.fed <+: cmds.flatMap commandText)
    (hsize : s.fed.length ≤ 2147483648) :
    (redisReaderGetReply strtod s.reader).isSome ∧ ∀ c, Settled strtod s c → c.2.1 = .ok ∧
      ∃ n, n ≤ cmds.length ∧ s.delivered = (cmds.take n).map asReply ∧
        ∀ k, k ≤ cmds.length → ((cmds.take k).flatMap commandText <+: s.fed ↔ k ≤ n) := by
  have htexts : ∀ k, Texts strtod m none ((cmds.map asReply).take k)
      ((cmds.take k).flatMap commandText) := by
    intro k
    rw [← List.map_take]
    exact texts_commands (fun args hargs => hcmds args (List.mem_of_mem_take hargs)) hm
  obtain ⟨n, u, frames, rest, hdrain, hu, hub, hmax⟩ :=
    drain_of_begins (texts_commands hcmds hm) hfed
  refine ⟨getReply_isSome hs hsize (by rw [hdrain]; simp), ?_⟩
  intro c hc
  obtain ⟨final, hend, -, herr, hst⟩ := hc.drain hs hsize
  rw [hdrain] at hend
  obtain ⟨hdel, rfl⟩ := Prod.mk.inj hend
  have hok : c.2.1 = .ok := by
    cases hcase : c.2.1 with
    | ok => rfl
    | err => exact absurd herr (hst.mp hcase)
  refine ⟨hok, min n cmds.length, by omega, ?_, ?_⟩
  · rw [← hdel, List.map_take, List.take_eq_take_iff, List.length_map]
    omega
  · intro k hk
    constructor
    · intro hbegins
      have hle := hmax k _ (htexts k) hbegins
      rw [List.length_take, List.length_take, List.length_map] at hle
      omega
    · intro hkn
      have hwhole : (cmds.take n).flatMap commandText <+: cmds.flatMap commandText := by
        rw [← List.take_append_drop n cmds, List.flatMap_append, List.take_append_drop]
        exact List.prefix_append _ _
      have heq := hu.eq_of_begins (htexts n) (hub.trans hfed) hwhole
      have hkbegins : (cmds.take k).flatMap commandText <+: (cmds.take n).flatMap commandText := by
        have htake : cmds.take k = (cmds.take n).take k := by
          rw [List.take_take]
          congr 1
          omega
        rw [htake]
        conv_rhs => rw [← List.take_append_drop k (cmds.take n), List.flatMap_append]
        exact List.prefix_append _ _
      rw [← heq] at hkbegins
      exact hkbegins.trans hub

end texts

/-! ### A command with a space -/

end RedisMigrate
