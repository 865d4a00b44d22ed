import Redix.Base.Numbers

/-!
# The command line (config.cpp)

`parse_config` goes through the arguments from the first to the last. Some options take the
argument after them along, whatever it looks like; the first one that cannot be read ends the
loop. Here the command lines are a grammar, and the configuration is read off its settings.

- `parseConfig`: the loop;
- `Setting`, `Spells`: the options, and the arguments that spell them;
- `Stops`, `CommandLine`: where the loop ends and with which error, and whole command lines;
- `Config.Given`: what the settings say, the last one of each kind;
- `parse_config_grammar`: the loop accepts the grammar and nothing else, and says of anything
  else where it departs;
- `configs_round_trip`: every configuration that makes sense can be written down.
-/

namespace Redix

/-! ## The loop -/

/-- `Config` -/
structure Config where
  bindAddr : Bytes := ascii "127.0.0.1"
  port : UInt16 := 6379
  dbFilePrefix : Bytes := ascii "./redix"
  aofEnabled : Bool := false
  rdbEnabled : Bool := true
  loglevel : Bytes := ascii "info"
deriving DecidableEq

/-- `parse_port`: the whole text must be one decimal of type `int`, and a port. -/
def parsePort (text : Bytes) : Option UInt16 :=
  match Decimal.fromChars true (-2 ^ 31) (2 ^ 31 - 1) text with
  | some (value, []) => if value ≤ 0 ∨ 65535 < value then none else some (.ofNat value.toNat)
  | _ => none

/-- `is_loglevel` -/
def isLoglevel (level : Bytes) : Bool :=
  level = ascii "debug" || level = ascii "info" || level = ascii "warn" || level = ascii "error"

/-- The options that take the next argument along. -/
def takesValue (arg : Bytes) : Bool :=
  arg = ascii "-p" || arg = ascii "-b" || arg = ascii "-d" || arg = ascii "--loglevel"

/-- The loop of `parse_config`, from one of the arguments on. -/
def parseArgs : List Bytes → Config → Except Bytes Config
  | [], cfg => .ok cfg
  | arg :: rest, cfg =>
    if arg = ascii "-h" then .error (ascii "help")
    else if arg = ascii "--aof" then parseArgs rest { cfg with aofEnabled := true }
    else if arg = ascii "--no-rdb" then parseArgs rest { cfg with rdbEnabled := false }
    else
      match rest with
      | [] =>
        if takesValue arg then .error (ascii "missing value for " ++ arg)
        else .error (ascii "unknown option: " ++ arg)
      | value :: rest =>
        if arg = ascii "-p" then
          match parsePort value with
          | none => .error (ascii "invalid port")
          | some port => parseArgs rest { cfg with port }
        else if arg = ascii "-b" then parseArgs rest { cfg with bindAddr := value }
        else if arg = ascii "-d" then parseArgs rest { cfg with dbFilePrefix := value }
        else if arg = ascii "--loglevel" then
          if isLoglevel value then parseArgs rest { cfg with loglevel := value }
          else .error (ascii "invalid loglevel")
        else .error (ascii "unknown option: " ++ arg)

/-- `parse_config`, for the arguments after the program's name. -/
def parseConfig (args : List Bytes) : Except Bytes Config := parseArgs args {}

variable {args before rest : List Bytes} {cfg : Config}

/-! ## The grammar -/

/-- A setting. -/
inductive Setting where
  | port (n : UInt16) (h : n ≠ 0)
  | bindAddr (addr : Bytes)
  | dbFilePrefix (path : Bytes)
  | aof
  | noRdb
  | loglevel (level : Bytes) (h : isLoglevel level = true)

namespace Setting

/-- The arguments that spell a setting. -/
inductive Spells : List Bytes → Setting → Prop
  | port {text : Bytes} {n : UInt16} (htext : Decimal.Numeral true text n.toNat) (h : n ≠ 0) :
      Spells [ascii "-p", text] (port n h)
  | bindAddr (addr : Bytes) : Spells [ascii "-b", addr] (bindAddr addr)
  | dbFilePrefix (path : Bytes) : Spells [ascii "-d", path] (dbFilePrefix path)
  | aof : Spells [ascii "--aof"] aof
  | noRdb : Spells [ascii "--no-rdb"] noRdb
  | loglevel {level : Bytes} (h : isLoglevel level = true) :
      Spells [ascii "--loglevel", level] (loglevel level h)

/-- What the loop makes of a setting. -/
def apply (cfg : Config) : Setting → Config
  | port n _ => { cfg with port := n }
  | bindAddr addr => { cfg with bindAddr := addr }
  | dbFilePrefix path => { cfg with dbFilePrefix := path }
  | aof => { cfg with aofEnabled := true }
  | noRdb => { cfg with rdbEnabled := false }
  | loglevel level _ => { cfg with loglevel := level }

def port? : Setting → Option UInt16
  | port n _ => some n
  | _ => none

def bindAddr? : Setting → Option Bytes
  | bindAddr addr => some addr
  | _ => none

def dbFilePrefix? : Setting → Option Bytes
  | dbFilePrefix path => some path
  | _ => none

def loglevel? : Setting → Option Bytes
  | loglevel level _ => some level
  | _ => none

end Setting

open Setting

/-- The names of the options. -/
def optionNames : List Bytes :=
  ["-h", "-p", "-b", "-d", "--aof", "--no-rdb", "--loglevel"].map ascii

/-- What no setting can be read from, with the error that is reported. -/
inductive Stops : List Bytes → Bytes → Prop
  | help (rest : List Bytes) : Stops (ascii "-h" :: rest) (ascii "help")
  | missing {arg : Bytes} (h : takesValue arg = true) :
      Stops [arg] (ascii "missing value for " ++ arg)
  | port {text : Bytes} (h : ∀ n : UInt16, n ≠ 0 → ¬ Decimal.Numeral true text n.toNat)
      (rest : List Bytes) : Stops (ascii "-p" :: text :: rest) (ascii "invalid port")
  | loglevel {level : Bytes} (h : isLoglevel level = false) (rest : List Bytes) :
      Stops (ascii "--loglevel" :: level :: rest) (ascii "invalid loglevel")
  | unknown {arg : Bytes} (h : arg ∉ optionNames) (rest : List Bytes) :
      Stops (arg :: rest) (ascii "unknown option: " ++ arg)

/-- A command line: settings up to its end, or up to where no further one can be read. -/
inductive CommandLine : List Bytes → List Setting → Option Bytes → Prop
  | done : CommandLine [] [] none
  | stop {rest : List Bytes} {e : Bytes} (h : Stops rest e) : CommandLine rest [] (some e)
  | setting {group rest : List Bytes} {g : Setting} {gs : List Setting} {stop? : Option Bytes}
      (hgroup : Spells group g) (hrest : CommandLine rest gs stop?) :
      CommandLine (group ++ rest) (g :: gs) stop?

/-! ## Reading -/

/-- `parse_port` accepts exactly the numerals of ports. -/
theorem parsePort_eq_some {text : Bytes} {n : UInt16} :
    parsePort text = some n ↔ Decimal.Numeral true text n.toNat ∧ n ≠ 0 := by
  unfold parsePort
  constructor
  · intro h
    split at h
    · rename_i value hread
      obtain ⟨hnum, -⟩ := Decimal.fromChars_whole_iff.mp hread
      -- the range is checked as an `int`, before the cast to 16 bits
      split_ifs at h with hrange
      have hn : (n.toNat : Int) = value := by
        rw [← Option.some.inj h, UInt16.toNat_ofNat_of_lt' (by simp only [UInt16.size]; omega)]
        omega
      refine ⟨hn ▸ hnum, fun hzero => ?_⟩
      rw [hzero, UInt16.toNat_zero] at hn
      omega
    · cases h
  · rintro ⟨hnum, hne⟩
    have hlt := n.toNat_lt
    have hpos : n.toNat ≠ 0 := fun hzero => hne (UInt16.toNat_inj.mp hzero)
    have hread : Decimal.fromChars true (-2 ^ 31) (2 ^ 31 - 1) text = some ((n.toNat : Int), []) :=
      Decimal.fromChars_whole_iff.mpr ⟨hnum, by omega, by omega⟩
    rw [hread]
    simp only [Int.toNat_natCast, UInt16.ofNat_toNat]
    exact if_neg (by omega)

/-- A text is refused exactly if it is no numeral of a port. -/
theorem parsePort_eq_none {text : Bytes} :
    parsePort text = none ↔ ∀ n : UInt16, n ≠ 0 → ¬ Decimal.Numeral true text n.toNat := by
  rw [Option.eq_none_iff_forall_ne_some]
  refine forall_congr' fun n => ?_
  rw [ne_eq, parsePort_eq_some, not_and', imp_congr_right fun _ => Iff.rfl]

/-- The loop reads a setting. -/
theorem parseArgs_group {group : List Bytes} {g : Setting} (h : Spells group g) :
    parseArgs (group ++ rest) cfg = parseArgs rest (g.apply cfg) := by
  -- one turn for each spelling, a value taking the next argument with it
  cases h with
  | port htext hne =>
    show parseArgs (_ :: _ :: rest) cfg = _
    rw [parseArgs]
    simp only [parsePort_eq_some.mpr ⟨htext, hne⟩]
    rfl
  | bindAddr addr => rfl
  | dbFilePrefix path => rfl
  | aof =>
    show parseArgs (_ :: rest) cfg = _
    rw [parseArgs.eq_def]
    rfl
  | noRdb =>
    show parseArgs (_ :: rest) cfg = _
    rw [parseArgs.eq_def]
    rfl
  | loglevel hlevel =>
    show parseArgs (_ :: _ :: rest) cfg = _
    rw [parseArgs]
    simp only [hlevel]
    rfl

/-- Where no setting can be read, the loop ends. -/
theorem parseArgs_stops {e : Bytes} (h : Stops rest e) : parseArgs rest cfg = .error e := by
  cases h with
  | help rest =>
    rw [parseArgs.eq_def]
    rfl
  | @missing arg h =>
    have hnames : arg ≠ ascii "-h" ∧ arg ≠ ascii "--aof" ∧ arg ≠ ascii "--no-rdb" := by
      refine ⟨?_, ?_, ?_⟩ <;> rintro rfl <;> exact absurd h (by decide)
    rw [parseArgs, if_neg hnames.1, if_neg hnames.2.1, if_neg hnames.2.2]
    exact if_pos h
  | port h rest =>
    rw [parseArgs]
    simp only [parsePort_eq_none.mpr h]
    rfl
  | loglevel h rest =>
    rw [parseArgs]
    simp only [h]
    rfl
  | @unknown arg h rest =>
    simp only [optionNames, List.map_cons, List.map_nil, List.mem_cons, List.not_mem_nil,
      or_false, not_or] at h
    obtain ⟨hhelp, hport, hbind, hdb, haof, hrdb, hlevel⟩ := h
    have htakes : takesValue arg = false := by simp [takesValue, hport, hbind, hdb, hlevel]
    cases rest with
    | nil =>
      rw [parseArgs, if_neg hhelp, if_neg haof, if_neg hrdb]
      simp only [htakes]
      rfl
    | cons value rest =>
      rw [parseArgs]
      simp only [if_neg hhelp, if_neg haof, if_neg hrdb, if_neg hport, if_neg hbind, if_neg hdb,
        if_neg hlevel]

/-- The loop reads a command line. -/
theorem parseArgs_of_commandLine {gs : List Setting} {stop? : Option Bytes}
    (h : CommandLine args gs stop?) :
    parseArgs args cfg = stop?.elim (.ok (gs.foldl Setting.apply cfg)) .error := by
  induction h generalizing cfg with
  | done => rfl
  | stop h => exact parseArgs_stops h
  | setting hgroup hrest ih => rw [parseArgs_group hgroup, ih, List.foldl_cons]

/-- Everything is a command line. -/
theorem exists_commandLine (args : List Bytes) : ∃ gs stop?, CommandLine args gs stop? := by
  have hstop {rest : List Bytes} {e : Bytes} (h : Stops rest e) :
      ∃ gs stop?, CommandLine rest gs stop? := ⟨[], some e, .stop h⟩
  have hsetting {group rest : List Bytes} {g : Setting} (hgroup : Spells group g)
      (h : ∃ gs stop?, CommandLine rest gs stop?) :
      ∃ gs stop?, CommandLine (group ++ rest) gs stop? := by
    obtain ⟨gs, stop?, hrest⟩ := h
    exact ⟨g :: gs, stop?, .setting hgroup hrest⟩
  -- what is set so far does not matter for how the rest is read
  generalize hcfg : ({} : Config) = cfg
  clear hcfg
  -- along the turns of the loop: each reads a setting or stops
  fun_induction parseArgs args cfg with
  | case1 => exact ⟨[], none, .done⟩
  | case2 => exact hstop (.help _)
  | case3 cfg rest _ ih => exact hsetting .aof ih
  | case4 cfg rest _ _ ih => exact hsetting .noRdb ih
  | case5 arg cfg _ _ _ htakes => exact hstop (.missing htakes)
  | case6 arg cfg hhelp haof hrdb htakes =>
    refine hstop (.unknown (fun hmem => htakes ?_) [])
    simpa [optionNames, hhelp, haof, hrdb, takesValue, or_assoc] using hmem
  | case7 cfg text rest hport => exact hstop (.port (parsePort_eq_none.mp hport) rest)
  | case8 cfg text rest n hport _ _ _ ih =>
    obtain ⟨htext, hne⟩ := parsePort_eq_some.mp hport
    exact hsetting (.port htext hne) ih
  | case9 cfg addr rest _ _ _ _ ih => exact hsetting (.bindAddr addr) ih
  | case10 cfg path rest _ _ _ _ _ ih => exact hsetting (.dbFilePrefix path) ih
  | case11 cfg level rest hlevel _ _ _ _ _ _ ih => exact hsetting (.loglevel hlevel) ih
  | case12 cfg level rest hlevel =>
    exact hstop (.loglevel (Bool.eq_false_iff.mpr hlevel) rest)
  | case13 arg cfg hhelp haof hrdb value rest hport hbind hdb hlevel =>
    refine hstop (.unknown ?_ (value :: rest))
    simp [optionNames, hhelp, haof, hrdb, hport, hbind, hdb, hlevel]

/-! ## What the settings say -/

/-- The configuration that settings give: the last setting of each kind counts, and what is not
set has its default. -/
structure Config.Given (cfg : Config) (gs : List Setting) : Prop where
  port : cfg.port = (gs.filterMap port?).getLast?.getD 6379
  bindAddr : cfg.bindAddr = (gs.filterMap bindAddr?).getLast?.getD (ascii "127.0.0.1")
  dbFilePrefix : cfg.dbFilePrefix = (gs.filterMap dbFilePrefix?).getLast?.getD (ascii "./redix")
  loglevel : cfg.loglevel = (gs.filterMap loglevel?).getLast?.getD (ascii "info")
  aofEnabled : cfg.aofEnabled = true ↔ Setting.aof ∈ gs
  rdbEnabled : cfg.rdbEnabled = true ↔ Setting.noRdb ∉ gs

/-- The settings say one thing only. -/
theorem Config.Given.unique {cfg' : Config} {gs : List Setting} (h : cfg.Given gs)
    (h' : cfg'.Given gs) : cfg = cfg' := by
  have haof : cfg.aofEnabled = cfg'.aofEnabled :=
    Bool.eq_iff_iff.mpr (h.aofEnabled.trans h'.aofEnabled.symm)
  have hrdb : cfg.rdbEnabled = cfg'.rdbEnabled :=
    Bool.eq_iff_iff.mpr (h.rdbEnabled.trans h'.rdbEnabled.symm)
  have hport := h.port.trans h'.port.symm
  have hbind := h.bindAddr.trans h'.bindAddr.symm
  have hdb := h.dbFilePrefix.trans h'.dbFilePrefix.symm
  have hlevel := h.loglevel.trans h'.loglevel.symm
  cases cfg
  cases cfg'
  simp_all

/-- A field that some of the settings write: the last of them is what it has. -/
theorem foldl_apply {α : Type} {field : Config → α} {value? : Setting → Option α}
    (hfield : ∀ cfg g, field (Setting.apply cfg g) = (value? g).getD (field cfg))
    (gs : List Setting) (cfg : Config) :
    field (gs.foldl Setting.apply cfg) = (gs.filterMap value?).getLast?.getD (field cfg) := by
  induction gs generalizing cfg with
  | nil => rfl
  | cons g rest ih =>
    rw [List.foldl_cons, ih, hfield]
    -- a setting of another field leaves this one, one of this field is the last so far
    cases hvalue : value? g with
    | none => rw [List.filterMap_cons_none hvalue, Option.getD_none]
    | some value =>
      rw [List.filterMap_cons_some hvalue, List.getLast?_cons, Option.getD_some,
        Option.getD_some]

/-- What the loop leaves is what the settings give. -/
theorem foldl_given (gs : List Setting) : (gs.foldl Setting.apply {}).Given gs where
  port := foldl_apply (fun cfg g => by cases g <;> rfl) gs {}
  bindAddr := foldl_apply (fun cfg g => by cases g <;> rfl) gs {}
  dbFilePrefix := foldl_apply (fun cfg g => by cases g <;> rfl) gs {}
  loglevel := foldl_apply (fun cfg g => by cases g <;> rfl) gs {}
  aofEnabled := by
    -- the two flags are set by any occurrence, and nothing sets them back
    have haof (cfg : Config) : (gs.foldl Setting.apply cfg).aofEnabled = true ↔
        cfg.aofEnabled = true ∨ Setting.aof ∈ gs := by
      induction gs generalizing cfg with
      | nil => simp
      | cons g rest ih =>
        rw [List.foldl_cons, ih]
        cases g <;> simp [Setting.apply]
    exact (haof {}).trans (or_iff_right Bool.false_ne_true)
  rdbEnabled := by
    have hrdb (cfg : Config) : (gs.foldl Setting.apply cfg).rdbEnabled = true ↔
        cfg.rdbEnabled = true ∧ Setting.noRdb ∉ gs := by
      induction gs generalizing cfg with
      | nil => simp
      | cons g rest ih =>
        rw [List.foldl_cons, ih]
        cases g <;> simp [Setting.apply]
    exact (hrdb {}).trans (and_iff_right rfl)

/-- What is accepted. -/
theorem parseConfig_eq_ok :
    parseConfig args = .ok cfg ↔ ∃ gs, CommandLine args gs none ∧ cfg.Given gs := by
  constructor
  · intro hok
    -- any arguments spell some settings and then end or stop
    obtain ⟨gs, stop?, hline⟩ := exists_commandLine args
    rw [parseConfig, parseArgs_of_commandLine hline] at hok
    cases stop? with
    | some e => cases hok
    | none =>
      obtain rfl := Except.ok.inj hok
      exact ⟨gs, hline, foldl_given gs⟩
  · rintro ⟨gs, hline, hgiven⟩
    rw [parseConfig, parseArgs_of_commandLine hline, hgiven.unique (foldl_given gs)]
    rfl

/-- What is refused, and with which error. -/
theorem parseConfig_eq_error {e : Bytes} :
    parseConfig args = .error e ↔ ∃ gs, CommandLine args gs (some e) := by
  constructor
  · intro herror
    obtain ⟨gs, stop?, hline⟩ := exists_commandLine args
    rw [parseConfig, parseArgs_of_commandLine hline] at herror
    cases stop? with
    | none => cases herror
    | some e' =>
      obtain rfl := Except.error.inj herror
      exact ⟨gs, hline⟩
  · rintro ⟨gs, hline⟩
    exact parseArgs_of_commandLine hline

/-- **The command line has an exact grammar.** A command line is accepted exactly if it spells
settings to its end; then the configuration has the last value of each kind, and defaults for
the rest. It is refused exactly if no setting can be read from some place on, and the error is
about the first such place. One of the two is always the case. -/
theorem parse_config_grammar (args : List Bytes) :
    (∀ cfg, parseConfig args = .ok cfg ↔ ∃ gs, CommandLine args gs none ∧ cfg.Given gs) ∧
    (∀ e, parseConfig args = .error e ↔ ∃ gs, CommandLine args gs (some e)) ∧
    ∃ gs stop?, CommandLine args gs stop? :=
  ⟨fun _ => parseConfig_eq_ok, fun _ => parseConfig_eq_error, exists_commandLine args⟩

/-- What stands where a value is taken is the value, whatever it looks like. -/
example : parseConfig [ascii "-b", ascii "-h", ascii "-p", ascii "07000", ascii "--aof"] =
    .ok { bindAddr := ascii "-h", port := 7000, aofEnabled := true } := rfl

/-! ## Round trips -/

/-- A configuration that can be asked for. -/
structure Config.Valid (cfg : Config) : Prop where
  port : cfg.port ≠ 0
  loglevel : isLoglevel cfg.loglevel = true

/-- A spelling of a setting. -/
def Setting.spelling : Setting → List Bytes
  | port n _ => [ascii "-p", Decimal.printNat n.toNat]
  | bindAddr addr => [ascii "-b", addr]
  | dbFilePrefix path => [ascii "-d", path]
  | aof => [ascii "--aof"]
  | noRdb => [ascii "--no-rdb"]
  | loglevel level _ => [ascii "--loglevel", level]

/-- The way to write a setting is one that can be read. -/
theorem Setting.spells_spelling (g : Setting) : Spells g.spelling g := by
  cases g with
  | port n h => exact .port (Decimal.numeral_printNat true n.toNat) h
  | bindAddr addr => exact .bindAddr addr
  | dbFilePrefix path => exact .dbFilePrefix path
  | aof => exact .aof
  | noRdb => exact .noRdb
  | loglevel level h => exact .loglevel h

/-- Settings that are written down are read one after another. -/
theorem parseArgs_spelling (gs : List Setting) :
    parseArgs (gs.flatMap Setting.spelling ++ rest) cfg =
      parseArgs rest (gs.foldl Setting.apply cfg) := by
  induction gs generalizing cfg with
  | nil => rfl
  | cons g gs ih =>
    rw [List.flatMap_cons, List.append_assoc, parseArgs_group g.spells_spelling, ih,
      List.foldl_cons]

/-- Settings that give a configuration. -/
def Config.settings (cfg : Config) (h : cfg.Valid) : List Setting :=
  [.port cfg.port h.port, .bindAddr cfg.bindAddr, .dbFilePrefix cfg.dbFilePrefix,
    .loglevel cfg.loglevel h.loglevel] ++
  ((if cfg.aofEnabled then [.aof] else []) ++ if cfg.rdbEnabled then [] else [.noRdb])

/-- The settings of a configuration give it. -/
theorem Config.foldl_settings (h : cfg.Valid) : (cfg.settings h).foldl Setting.apply {} = cfg := by
  obtain ⟨bindAddr, port, dbFilePrefix, aofEnabled, rdbEnabled, loglevel⟩ := cfg
  cases aofEnabled <;> cases rdbEnabled <;> rfl

/-- A command line for a configuration. -/
def Config.arguments (cfg : Config) (h : cfg.Valid) : List Bytes :=
  (cfg.settings h).flatMap Setting.spelling

/-- What the loop leaves makes sense, if what it started from does. -/
theorem Config.Valid.foldl (gs : List Setting) (h : cfg.Valid) :
    (gs.foldl Setting.apply cfg).Valid := by
  induction gs generalizing cfg with
  | nil => exact h
  | cons g rest ih =>
    refine ih ?_
    cases g with
    | port n hne => exact ⟨hne, h.loglevel⟩
    | loglevel level hlevel => exact ⟨h.port, hlevel⟩
    | bindAddr | dbFilePrefix | aof | noRdb => exact ⟨h.port, h.loglevel⟩

/-- **Configurations round trip.** What is accepted is a configuration with a port and a level
that exists. Each of these is what its command line is read as, and further arguments only
change it from there. -/
theorem configs_round_trip :
    (∀ args cfg, parseConfig args = .ok cfg → cfg.Valid) ∧
    ∀ (cfg : Config) (h : cfg.Valid), parseConfig (cfg.arguments h) = .ok cfg ∧
      ∀ rest, parseConfig (cfg.arguments h ++ rest) = parseArgs rest cfg := by
  have hread {cfg : Config} (h : cfg.Valid) (rest : List Bytes) :
      parseConfig (cfg.arguments h ++ rest) = parseArgs rest cfg := by
    rw [parseConfig, Config.arguments, parseArgs_spelling, Config.foldl_settings]
  refine ⟨fun args cfg hok => ?_, fun cfg hvalid => ⟨?_, hread hvalid⟩⟩
  · obtain ⟨gs, stop?, hline⟩ := exists_commandLine args
    have hread : parseArgs args {} = stop?.elim (.ok (gs.foldl Setting.apply {})) .error :=
      parseArgs_of_commandLine hline
    have hdefault : Config.Valid {} := ⟨by decide, by decide⟩
    rw [parseConfig, hread] at hok
    cases stop? with
    | some e => cases hok
    | none =>
      obtain rfl := Except.ok.inj hok
      exact hdefault.foldl gs
  · have hself := hread hvalid []
    rwa [List.append_nil] at hself

end Redix
