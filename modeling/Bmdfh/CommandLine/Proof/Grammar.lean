import Bmdfh.CommandLine.Programs

/-!
# The grammar of a command line

A command line is read as settings one after the other, each a flag with the value it needs
(`Reads`); a number is a run of digits whose value fits its type (`Numeral`). `parseLoop_iff` says
which command lines are accepted and with which options, which print the usage, and which are
rejected: with the first argument at fault (`Rejects`). Both programs rest on it, and read back
the command line that spells out all of their options (`FeedHandler.parseArgs_args`,
`ExchangeSim.parseArgs_spelled`).
-/

namespace Bmdfh

open Decimal Protocol

namespace CommandLine

/-! ## Numbers -/

/-- Digits for a number that fits `bits` bits; leading zeros are allowed. -/
structure Numeral (bits : Nat) (text : String) (n : Nat) : Prop where
  ne_nil : text.toList ≠ []
  digits : ∀ c ∈ text.toList, c.isDigit = true
  value : Decimal.value text.toList = n
  lt : n < 2 ^ bits

theorem numeral_toString {bits n : Nat} (h : n < 2 ^ bits) : Numeral bits (toString n) n := by
  rw [Nat.toString_eq_repr]
  refine ⟨?_, fun c hc => ?_, ?_, h⟩
  · rw [Nat.toList_repr]
    exact digits_ne_nil n
  · rw [Nat.toList_repr] at hc
    exact isDigit_of_mem hc
  · rw [Nat.toList_repr, value_digits]

theorem numeral_uint16 (x : UInt16) : Numeral 16 (toString x) x.toNat :=
  numeral_toString x.toNat_lt

theorem fromChars_eq_ok {bits n : Nat} {text rest : List Char} :
    fromChars bits text = .ok (n, rest) ↔
      text.takeWhile Char.isDigit ≠ [] ∧ value (text.takeWhile Char.isDigit) = n ∧ n < 2 ^ bits ∧
        text.dropWhile Char.isDigit = rest := by
  unfold fromChars
  dsimp only
  split
  · rename_i hnil
    exact ⟨fun h => (nomatch h), fun h => (h.1 hnil).elim⟩
  · rename_i hne
    split
    · rename_i hle
      refine ⟨fun h => (nomatch h), ?_⟩
      rintro ⟨-, rfl, hlt, -⟩
      omega
    · rename_i hlt
      constructor
      · rintro ⟨⟩
        exact ⟨hne, rfl, Nat.not_le.1 hlt, rfl⟩
      · rintro ⟨-, rfl, -, rfl⟩
        rfl

theorem parseUnsigned_eq_ok {bits n : Nat} {text flagName : String} :
    parseUnsigned bits text flagName = .ok n ↔ Numeral bits text n := by
  have hiff : parseUnsigned bits text flagName = .ok n
      ↔ fromChars bits text.toList = .ok (n, []) := by
    unfold parseUnsigned
    split
    · rename_i m heq
      rw [heq]
      constructor
      · rintro ⟨⟩
        rfl
      · rintro ⟨⟩
        rfl
    · rename_i hne
      exact ⟨fun h => (nomatch h), fun h => (hne _ h).elim⟩
  rw [hiff, fromChars_eq_ok]
  constructor
  · rintro ⟨hne, hvalue, hlt, hdrop⟩
    have hall := List.dropWhile_eq_nil_iff.1 hdrop
    rw [List.takeWhile_eq_self_iff.2 hall] at hne hvalue
    exact ⟨hne, hall, hvalue, hlt⟩
  · rintro ⟨hne, hall, hvalue, hlt⟩
    rw [List.takeWhile_eq_self_iff.2 hall]
    exact ⟨hne, hvalue, hlt, List.dropWhile_eq_nil_iff.2 hall⟩

/-- There is one error. -/
theorem parseUnsigned_eq_error {bits : Nat} {text flagName : String} {e : RuntimeError} :
    parseUnsigned bits text flagName = .error e ↔
      (∀ n, ¬ Numeral bits text n) ∧ e = "invalid numeric value for " ++ flagName := by
  constructor
  · intro h
    refine ⟨fun n hn => ?_, ?_⟩
    · rw [parseUnsigned_eq_ok.2 hn] at h
      cases h
    · unfold parseUnsigned at h
      split at h
      · cases h
      · cases h
        rfl
  · rintro ⟨hnone, rfl⟩
    cases h : parseUnsigned bits text flagName with
    | ok n => exact (hnone n (parseUnsigned_eq_ok.1 h)).elim
    | error e =>
      unfold parseUnsigned at h
      split at h
      · cases h
      · exact h.symm

/-! ## Settings -/

section
variable {Options : Type} {flags : String → Option (Flag Options)}

/-- A flag with the value it needs, and what it does. -/
inductive Writes (flags : String → Option (Flag Options)) :
    List String → (Options → Options) → Prop
  | text {flag value : String} {set : String → Options → Options}
      (known : flags flag = some (.text set)) : Writes flags [flag, value] (set value)
  | number {flag value : String} {bits n : Nat} {set : Nat → Options → Options}
      (known : flags flag = some (.number bits set)) (numeral : Numeral bits value n) :
      Writes flags [flag, value] (set n)
  | switch {flag : String} {set : Options → Options}
      (known : flags flag = some (.switch set)) : Writes flags [flag] set

/-- Settings one after the other. -/
inductive Reads (flags : String → Option (Flag Options)) :
    List String → (Options → Options) → Prop
  | nil : Reads flags [] id
  | cons {words rest : List String} {first others : Options → Options}
      (writes : Writes flags words first) (reads : Reads flags rest others) :
      Reads flags (words ++ rest) (others ∘ first)

/-- The first argument of the rest is at fault, or its value. -/
inductive Rejects (flags : String → Option (Flag Options)) : List String → RuntimeError → Prop
  | unknown {argument : String} {rest : List String} (unknown : flags argument = none) :
      Rejects flags (argument :: rest) ("unknown argument: " ++ argument)
  | noText {flag : String} {set : String → Options → Options}
      (known : flags flag = some (.text set)) :
      Rejects flags [flag] ("missing value for " ++ flag)
  | noNumber {flag : String} {bits : Nat} {set : Nat → Options → Options}
      (known : flags flag = some (.number bits set)) :
      Rejects flags [flag] ("missing value for " ++ flag)
  | badNumber {flag value : String} {rest : List String} {bits : Nat}
      {set : Nat → Options → Options} (known : flags flag = some (.number bits set))
      (bad : ∀ n, ¬ Numeral bits value n) :
      Rejects flags (flag :: value :: rest) ("invalid numeric value for " ++ flag)

/-- After a setting the loop goes on. -/
theorem Writes.parseLoop {words : List String} {set : Options → Options}
    (h : Writes flags words set) (rest : List String) (options : Options) :
    parseLoop flags (words ++ rest) options = parseLoop flags rest (set options) := by
  cases h with
  | text known =>
    simp only [List.cons_append, List.nil_append]
    rw [CommandLine.parseLoop, known]
  | number known numeral =>
    simp only [List.cons_append, List.nil_append]
    rw [CommandLine.parseLoop, known]
    dsimp only
    rw [parseUnsigned_eq_ok.2 numeral]
    rfl
  | switch known =>
    simp only [List.cons_append, List.nil_append]
    rw [CommandLine.parseLoop, known]

theorem Reads.parseLoop {args : List String} {set : Options → Options} (h : Reads flags args set)
    (rest : List String) (options : Options) :
    parseLoop flags (args ++ rest) options = parseLoop flags rest (set options) := by
  induction h generalizing options with
  | nil => rfl
  | cons writes _ ih => rw [List.append_assoc, writes.parseLoop, ih, Function.comp_apply]

theorem Rejects.parseLoop {rest : List String} {e : RuntimeError} (h : Rejects flags rest e)
    (options : Options) : parseLoop flags rest options = .error e := by
  cases h with
  | unknown unknown =>
    rw [CommandLine.parseLoop, unknown]
    rfl
  | noText known =>
    rw [CommandLine.parseLoop, known]
    rfl
  | noNumber known =>
    rw [CommandLine.parseLoop, known]
    rfl
  | badNumber known bad =>
    rw [CommandLine.parseLoop, known]
    dsimp only
    rw [parseUnsigned_eq_error.2 ⟨bad, rfl⟩]
    rfl

/-- How the loop ends. -/
inductive Ends (flags : String → Option (Flag Options)) (args : List String) : Prop
  | accepts {set : Options → Options} (reads : Reads flags args set)
  | helps {before rest : List String} {flag : String} {set : Options → Options}
      (reads : Reads flags before set) (known : flags flag = some .help)
      (split : args = before ++ flag :: rest)
  | rejects {before rest : List String} {set : Options → Options} {e : RuntimeError}
      (reads : Reads flags before set) (rejects : Rejects flags rest e)
      (split : args = before ++ rest)

theorem Ends.cons {words args : List String} {set : Options → Options}
    (writes : Writes flags words set) (h : Ends flags args) : Ends flags (words ++ args) := by
  cases h with
  | accepts reads => exact .accepts (.cons writes reads)
  | helps reads known split =>
    exact .helps (.cons writes reads) known (by rw [split, List.append_assoc])
  | rejects reads rejects split =>
    exact .rejects (.cons writes reads) rejects (by rw [split, List.append_assoc])

/-- Every command line ends in one of the three ways. -/
theorem ends (flags : String → Option (Flag Options)) (args : List String) : Ends flags args := by
  induction hn : args.length using Nat.strongRecOn generalizing args with
  | _ n ih =>
    subst hn
    match args with
    | [] => exact .accepts .nil
    | argument :: rest =>
      cases hflag : flags argument with
      | none => exact .rejects .nil (.unknown hflag) rfl
      | some flag =>
        cases flag with
        | help => exact .helps .nil hflag rfl
        | switch set => exact (ih _ (by simp) rest rfl).cons (.switch hflag)
        | text set =>
          match rest with
          | [] => exact .rejects .nil (.noText hflag) rfl
          | value :: rest =>
            exact (ih rest.length (by simp only [List.length_cons]; omega) rest rfl).cons
              (.text hflag)
        | number bits set =>
          match rest with
          | [] => exact .rejects .nil (.noNumber hflag) rfl
          | value :: rest =>
            by_cases hvalue : ∃ n, Numeral bits value n
            · obtain ⟨n, hn⟩ := hvalue
              exact (ih rest.length (by simp only [List.length_cons]; omega) rest rfl).cons
                (.number hflag hn)
            · exact .rejects .nil (.badNumber hflag (not_exists.1 hvalue)) rfl

/-- **The loop**, for a table with one flag that prints the usage. -/
theorem parseLoop_iff {flags : String → Option (Flag Options)}
    (help : ∀ flag, flags flag = some .help ↔ flag = "--help") (args : List String)
    (options : Options) :
    (∀ o, parseLoop flags args options = .ok (.options o) ↔
      ∃ set, Reads flags args set ∧ o = set options) ∧
    (parseLoop flags args options = .ok .help ↔
      ∃ before rest set, Reads flags before set ∧ args = before ++ "--help" :: rest) ∧
    (∀ e, parseLoop flags args options = .error e ↔
      ∃ before rest set, Reads flags before set ∧ Rejects flags rest e ∧
        args = before ++ rest) := by
  have haccepts {set : Options → Options} (h : Reads flags args set) :
      parseLoop flags args options = .ok (.options (set options)) := by
    have hloop := h.parseLoop [] options
    rwa [List.append_nil] at hloop
  have hhelps {before rest : List String} {flag : String} {set : Options → Options}
      (h : Reads flags before set) (hflag : flags flag = some .help)
      (hsplit : args = before ++ flag :: rest) :
      parseLoop flags args options = .ok .help := by
    rw [hsplit, h.parseLoop, CommandLine.parseLoop, hflag]
    rfl
  have hrejects {before rest : List String} {set : Options → Options} {e : RuntimeError}
      (h : Reads flags before set) (hr : Rejects flags rest e) (hsplit : args = before ++ rest) :
      parseLoop flags args options = .error e := by
    rw [hsplit, h.parseLoop, hr.parseLoop]
  refine ⟨fun o => ⟨fun h => ?_, ?_⟩, ⟨fun h => ?_, ?_⟩, fun e => ⟨fun h => ?_, ?_⟩⟩
  · cases ends flags args with
    | accepts reads =>
      cases (haccepts reads).symm.trans h
      exact ⟨_, reads, rfl⟩
    | helps reads known split => cases (hhelps reads known split).symm.trans h
    | rejects reads rejects split => cases (hrejects reads rejects split).symm.trans h
  · rintro ⟨set, reads, rfl⟩
    exact haccepts reads
  · cases ends flags args with
    | accepts reads => cases (haccepts reads).symm.trans h
    | helps reads known split => exact ⟨_, _, _, reads, (help _).1 known ▸ split⟩
    | rejects reads rejects split => cases (hrejects reads rejects split).symm.trans h
  · rintro ⟨before, rest, set, reads, split⟩
    exact hhelps reads ((help _).2 rfl) split
  · cases ends flags args with
    | accepts reads => cases (haccepts reads).symm.trans h
    | helps reads known split => cases (hhelps reads known split).symm.trans h
    | rejects reads rejects split =>
      cases (hrejects reads rejects split).symm.trans h
      exact ⟨_, _, _, reads, rejects, split⟩
  · rintro ⟨before, rest, set, reads, rejects, split⟩
    exact hrejects reads rejects split

end

end CommandLine

open CommandLine

/-! ## The feed handler -/

namespace FeedHandler

/-- **The command line of the feed handler.** -/
theorem parseArgs_iff_reads (args : List String) :
    (∀ o, parseArgs args = .ok (.options o) ↔ ∃ set, Reads flags args set ∧ o = set {}) ∧
    (parseArgs args = .ok .help ↔
      ∃ before rest set, Reads flags before set ∧ args = before ++ "--help" :: rest) ∧
    (∀ e, parseArgs args = .error e ↔
      ∃ before rest set, Reads flags before set ∧ Rejects flags rest e ∧
        args = before ++ rest) := by
  have help (flag : String) : flags flag = some .help ↔ flag = "--help" := by
    unfold flags
    split_ifs <;> simp_all
  exact parseLoop_iff help args {}

/-- The command line that spells out the options. -/
def Options.args (options : Options) : List String :=
  ["--group", options.group] ++ (["--port", toString options.port]
    ++ (["--recovery-host", options.recoveryHost]
    ++ (["--recovery-port", toString options.recoveryPort]
    ++ (["--messages", toString options.messages] ++ (["--cpu-core", toString options.cpuCore]
    ++ if options.benchmark then ["--benchmark"] ++ [] else [])))))

theorem parseArgs_args (options : Options) (hm : options.messages < 2 ^ 64)
    (hc : options.cpuCore < 2 ^ 64) : parseArgs options.args = .ok (.options options) := by
  unfold parseArgs Options.args
  rw [Writes.parseLoop (.text rfl), Writes.parseLoop (.number rfl (numeral_uint16 options.port)),
    Writes.parseLoop (.text rfl),
    Writes.parseLoop (.number rfl (numeral_uint16 options.recoveryPort)),
    Writes.parseLoop (.number rfl (numeral_toString hm)),
    Writes.parseLoop (.number rfl (numeral_toString hc))]
  simp only [UInt16.ofNat_toNat]
  split
  · rename_i hbenchmark
    rw [Writes.parseLoop (.switch rfl), ← hbenchmark]
    rfl
  · rename_i hbenchmark
    rw [Bool.not_eq_true] at hbenchmark
    rw [parseLoop, ← hbenchmark]
    rfl

end FeedHandler

/-! ## The publisher -/

namespace ExchangeSim

/-- The options as they were read. -/
def Options.raw (options : Options) : RawOptions := { options with }

theorem check_eq_ok {raw : RawOptions} {options : Options} :
    raw.check = .ok options ↔ raw = options.raw := by
  unfold RawOptions.check
  constructor
  · intro h
    split at h
    · cases h
    · split at h
      · cases h
      · cases h
        rfl
  · rintro rfl
    have hzero : ¬ options.raw.messagesPerPacket = 0 := options.messagesPerPacket_ne_zero
    have hlarge : ¬ options.raw.messagesPerPacket > kMaxMessagesPerPacket :=
      Nat.not_lt.2 options.messagesPerPacket_le
    rw [dif_neg hzero, dif_neg hlarge]
    rfl

/-- The two errors of the checks. -/
inductive Refuses (raw : RawOptions) : RuntimeError → Prop
  | zero (zero : raw.messagesPerPacket = 0) :
      Refuses raw "--messages-per-packet must be greater than zero"
  | large (large : kMaxMessagesPerPacket < raw.messagesPerPacket) :
      Refuses raw "--messages-per-packet is too large for the fixed 1024-byte packet buffer"

theorem check_eq_error {raw : RawOptions} {e : RuntimeError} :
    raw.check = .error e ↔ Refuses raw e := by
  unfold RawOptions.check
  constructor
  · intro h
    split at h
    · rename_i hzero
      cases h
      exact .zero hzero
    · split at h
      · rename_i hlarge
        cases h
        exact .large hlarge
      · cases h
  · intro h
    cases h with
    | zero zero =>
      rw [dif_pos zero]
      rfl
    | large large =>
      rw [dif_neg (by omega), dif_pos large]
      rfl

/-- `parse_args` is the loop, and the checks on what it has read. -/
theorem parseArgs_eq (args : List String) :
    parseArgs args = match parseLoop flags args {} with
      | .ok (.options raw) => raw.check.map Parsed.options
      | .ok .help => .ok .help
      | .error e => .error e := by
  unfold parseArgs
  rcases parseLoop flags args {} with e | raw | _
  · rfl
  · show Except.bind raw.check (fun o => .ok (Parsed.options o)) = raw.check.map Parsed.options
    cases raw.check <;> rfl
  · rfl

/-- **The command line of the publisher.** The number of messages in a packet is checked when the
whole of it has been read. -/
theorem parseArgs_iff_checked (args : List String) :
    (∀ o, parseArgs args = .ok (.options o) ↔ ∃ set, Reads flags args set ∧ o.raw = set {}) ∧
    (parseArgs args = .ok .help ↔
      ∃ before rest set, Reads flags before set ∧ args = before ++ "--help" :: rest) ∧
    (∀ e, parseArgs args = .error e ↔
      (∃ before rest set, Reads flags before set ∧ Rejects flags rest e ∧
        args = before ++ rest) ∨
      ∃ set, Reads flags args set ∧ Refuses (set {}) e) := by
  have help (flag : String) : flags flag = some .help ↔ flag = "--help" := by
    unfold flags
    split_ifs <;> simp_all
  obtain ⟨haccepts, hhelps, hrejects⟩ := parseLoop_iff help args {}
  refine ⟨fun o => ?_, ?_, fun e => ?_⟩
  · trans ∃ raw, parseLoop flags args {} = .ok (.options raw) ∧ raw.check = .ok o
    · rw [parseArgs_eq]
      rcases parseLoop flags args {} with e | raw | _
      · simp
      · cases hcheck : raw.check <;> simp [Except.map, hcheck]
      · simp
    · constructor
      · rintro ⟨raw, hloop, hcheck⟩
        obtain ⟨set, reads, rfl⟩ := (haccepts raw).1 hloop
        exact ⟨set, reads, (check_eq_ok.1 hcheck).symm⟩
      · rintro ⟨set, reads, hraw⟩
        exact ⟨_, (haccepts _).2 ⟨set, reads, rfl⟩, check_eq_ok.2 hraw.symm⟩
  · trans parseLoop flags args {} = .ok .help
    · rw [parseArgs_eq]
      rcases parseLoop flags args {} with e | raw | _
      · simp
      · cases hcheck : raw.check <;> simp [Except.map, hcheck]
      · simp
    · exact hhelps
  · trans parseLoop flags args {} = .error e ∨
      ∃ raw, parseLoop flags args {} = .ok (.options raw) ∧ raw.check = .error e
    · rw [parseArgs_eq]
      rcases parseLoop flags args {} with e | raw | _
      · simp
      · cases hcheck : raw.check <;> simp [Except.map, hcheck]
      · simp
    · refine or_congr (hrejects e) ⟨?_, ?_⟩
      · rintro ⟨raw, hloop, hcheck⟩
        obtain ⟨set, reads, rfl⟩ := (haccepts raw).1 hloop
        exact ⟨set, reads, check_eq_error.1 hcheck⟩
      · rintro ⟨set, reads, hrefuses⟩
        exact ⟨_, (haccepts _).2 ⟨set, reads, rfl⟩, check_eq_error.2 hrefuses⟩

/-- The command line that spells out the options. -/
def Options.args (options : Options) : List String :=
  ["--group", options.group] ++ (["--port", toString options.port]
    ++ (["--recovery-port", toString options.recoveryPort]
    ++ (["--messages", toString options.messages]
    ++ (["--messages-per-packet", toString options.messagesPerPacket]
    ++ (["--skip-every", toString options.skipEvery]
    ++ (["--interval-ms", toString options.intervalMs]
    ++ (["--recovery-grace-ms", toString options.recoveryGraceMs]
    ++ if options.quiet then ["--quiet"] ++ [] else [])))))))

theorem parseArgs_spelled (options : Options) (hm : options.messages < 2 ^ 64)
    (hs : options.skipEvery < 2 ^ 64) (hi : options.intervalMs < 2 ^ 64)
    (hg : options.recoveryGraceMs < 2 ^ 64) :
    parseArgs options.args = .ok (.options options) := by
  have hp : options.messagesPerPacket < 2 ^ 64 :=
    Nat.lt_of_le_of_lt options.messagesPerPacket_le (by decide)
  have hloop : parseLoop flags options.args {} = .ok (.options options.raw) := by
    unfold Options.args
    rw [Writes.parseLoop (.text rfl), Writes.parseLoop (.number rfl (numeral_uint16 options.port)),
      Writes.parseLoop (.number rfl (numeral_uint16 options.recoveryPort)),
      Writes.parseLoop (.number rfl (numeral_toString hm)),
      Writes.parseLoop (.number rfl (numeral_toString hp)),
      Writes.parseLoop (.number rfl (numeral_toString hs)),
      Writes.parseLoop (.number rfl (numeral_toString hi)),
      Writes.parseLoop (.number rfl (numeral_toString hg))]
    simp only [UInt16.ofNat_toNat]
    split
    · rename_i hquiet
      rw [Writes.parseLoop (.switch rfl), ← hquiet]
      rfl
    · rename_i hquiet
      rw [Bool.not_eq_true] at hquiet
      rw [parseLoop, ← hquiet]
      rfl
  rw [parseArgs_eq, hloop]
  show options.raw.check.map Parsed.options = _
  rw [check_eq_ok.2 rfl]
  rfl

/-- A publisher of five messages that drops every third packet. -/
theorem parseArgs_spelled_five :
    parseArgs (Options.args ⟨{ messages := 5, skipEvery := 3 }, "239.0.0.1", 1, 2, 0, 0, true⟩)
      = .ok (.options ⟨{ messages := 5, skipEvery := 3 }, "239.0.0.1", 1, 2, 0, 0, true⟩) :=
  parseArgs_spelled _ (by decide) (by decide) (by decide) (by decide)

end ExchangeSim

end Bmdfh
