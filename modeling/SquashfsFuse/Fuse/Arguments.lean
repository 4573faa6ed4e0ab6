import SquashfsFuse.Fuse.FuseMain
import SquashfsFuse.Foundation.Json
import Mathlib.Data.List.Flatten

/-! The command line (`fuse_main.c`): what is mounted, and what is left to FUSE. -/

namespace SquashfsFuse

/-! ## The passes over the arguments -/

/-- The white space that `isspace` knows in the C locale. -/
def isSpace (byte : UInt8) : Bool := byte == 0x20 || (0x09 ≤ byte && byte ≤ 0x0d)

/-- `atoi`, which is `strtol` cast to an `int`. -/
def atoi (text : List UInt8) : Int :=
  let magnitude (digits : List UInt8) : Int := decimalValue (digits.takeWhile isDigit)
  let long : Int :=
    match text.dropWhile isSpace with
    | 0x2d :: digits => max (-magnitude digits) (-2 ^ 63)
    | 0x2b :: digits => min (magnitude digits) (2 ^ 63 - 1)
    | digits => min (magnitude digits) (2 ^ 63 - 1)
  (long + 2 ^ 31) % 2 ^ 32 - 2 ^ 31

def defaultCacheSizeMb : Nat := 32

structure MainOptions where
  noCache : Bool
  cacheSizeMb : Nat
  imageFile : Option (List UInt8)
  mountPoint : Option (List UInt8)
  deriving Repr, DecidableEq

/-- The variables at the start. -/
def MainOptions.initial : MainOptions where
  noCache := false
  cacheSizeMb := defaultCacheSizeMb
  imageFile := none
  mountPoint := none

def MainOptions.addPositional (options : MainOptions) (text : List UInt8) : MainOptions :=
  if options.imageFile.isNone then
    { options with imageFile := some text }
  else if options.mountPoint.isNone then
    { options with mountPoint := some text }
  else
    options

/-- The first pass of `main` over its arguments. It ends in nothing where a text was asked for,
and `main` returns 0. -/
def firstPass (options : MainOptions) : List (List UInt8) → Option MainOptions
  | [] => some options
  | arg :: rest =>
      if arg = ascii "--nocache" then
        firstPass { options with noCache := true } rest
      else if arg.take 13 = ascii "--cache-size=" then
        firstPass { options with cacheSizeMb := ofInt64 (atoi (arg.drop 13)) } rest
      else if arg = ascii "-h" ∨ arg = ascii "--help" then
        none
      else if arg = ascii "-V" ∨ arg = ascii "--version" then
        none
      else if arg = ascii "-l" ∨ arg = ascii "--log" then
        match rest with
        | [] => some options
        | _ :: rest => firstPass options rest
      else if arg.take 2 = ascii "-l" ∧ 2 < arg.length then
        firstPass options rest
      else if arg.head? ≠ some 0x2d then
        firstPass (options.addPositional arg) rest
      else
        firstPass options rest

/-- The second pass of `main`: the arguments that are left to FUSE. -/
def secondPass (imageFile : List UInt8) : List (List UInt8) → List (List UInt8)
  | [] => []
  | arg :: rest =>
      if arg = ascii "--nocache" ∨ arg.take 13 = ascii "--cache-size=" then
        secondPass imageFile rest
      else if arg = ascii "-l" ∨ arg = ascii "--log" then
        match rest with
        | [] => []
        | _ :: rest => secondPass imageFile rest
      else if arg.take 2 = ascii "-l" ∧ 2 < arg.length then
        secondPass imageFile rest
      else if arg = imageFile then
        secondPass imageFile rest
      else
        arg :: secondPass imageFile rest

/-! ## Up to `fuse_main` -/

/-- What `main` does of itself: it returns, or calls `fuse_main`. -/
inductive MainOutcome
  | exits (status : Int)
  | fault
  | serves (fuseArgs : List (List UInt8)) (mounted : MountedCtx)

/-- The part of `main` behind its passes. `openImage` gives the file that can be opened at a
path. -/
def mainMount (sqfsCompressorCreate : Nat → Option Compressor)
    (openImage : List UInt8 → Option Image) (options : MainOptions) (imageFile : List UInt8)
    (args : List (List UInt8)) : MainOutcome :=
  match openImage imageFile with
  | none => .exits 1
  | some image =>
      match initContext sqfsCompressorCreate image options.cacheSizeMb options.noCache with
      | .err _ => .exits 1
      | .fault => .fault
      | .ok mounted =>
          .serves (args ++ [ascii "-oro", ascii "-onosuid", ascii "-onodev"]) mounted

/-- `main` up to its call of `fuse_main`. -/
def fuseMain (sqfsCompressorCreate : Nat → Option Compressor)
    (openImage : List UInt8 → Option Image) (program : List UInt8) (argv : List (List UInt8)) :
    MainOutcome :=
  match firstPass .initial argv with
  | none => .exits 0
  | some options =>
      match options.imageFile with
      | none => .exits 1
      | some imageFile =>
          match options.mountPoint with
          | none => .exits 1
          | some _ =>
              mainMount sqfsCompressorCreate openImage options imageFile
                (program :: secondPass imageFile argv)

/-! ## What the arguments mean -/

inductive MainArgument
  | noCache
  | cacheSize (text : List UInt8)
  | usage (text : List UInt8)
  | log (flag : List UInt8) (path : Option (List UInt8))
  | logAttached (text : List UInt8)
  | positional (text : List UInt8)
  | fuseOption (text : List UInt8)
  deriving Repr, DecidableEq

namespace MainArgument

def ofText (text : List UInt8) : MainArgument :=
  if text = ascii "--nocache" then noCache
  else if text.take 13 = ascii "--cache-size=" then cacheSize (text.drop 13)
  else if text = ascii "-h" ∨ text = ascii "--help" then usage text
  else if text = ascii "-V" ∨ text = ascii "--version" then usage text
  else if text = ascii "-l" ∨ text = ascii "--log" then log text none
  else if text.take 2 = ascii "-l" then logAttached text
  else if text.head? = some 0x2d then fuseOption text
  else positional text

/-- The arguments of a command line. -/
def read : List (List UInt8) → List MainArgument
  | [] => []
  | text :: rest =>
      match ofText text with
      | log flag _ =>
          match rest with
          | [] => [log flag none]
          | path :: rest => log flag (some path) :: read rest
      | argument => argument :: read rest

/-- The texts of an argument on the command line. -/
def texts : MainArgument → List (List UInt8)
  | noCache => [ascii "--nocache"]
  | cacheSize text => [ascii "--cache-size=" ++ text]
  | log flag path => flag :: path.toList
  | usage text | logAttached text | positional text | fuseOption text => [text]

def isUsage : MainArgument → Bool
  | usage _ => true
  | _ => false

def positional? : MainArgument → Option (List UInt8)
  | positional text => some text
  | _ => none

def cacheSize? : MainArgument → Option Nat
  | cacheSize text => some (ofInt64 (atoi text))
  | _ => none

/-- What FUSE gets to see of an argument. -/
def forFuse (imageFile : List UInt8) : MainArgument → List (List UInt8)
  | usage text | fuseOption text => [text]
  | positional text => if text = imageFile then [] else [text]
  | _ => []

/-! ## The passes agree -/

structure Unnamed (text : List UInt8) : Prop where
  noCache : text ≠ ascii "--nocache"
  cacheSize : text.take 13 ≠ ascii "--cache-size="
  help : ¬(text = ascii "-h" ∨ text = ascii "--help")
  version : ¬(text = ascii "-V" ∨ text = ascii "--version")
  log : ¬(text = ascii "-l" ∨ text = ascii "--log")

inductive Means : List UInt8 → MainArgument → Prop
  | noCache : Means (ascii "--nocache") noCache
  | cacheSize (text : List UInt8) : Means (ascii "--cache-size=" ++ text) (cacheSize text)
  | help {text} : text = ascii "-h" ∨ text = ascii "--help" → Means text (usage text)
  | version {text} : text = ascii "-V" ∨ text = ascii "--version" → Means text (usage text)
  | log {text} : text = ascii "-l" ∨ text = ascii "--log" → Means text (log text none)
  | logAttached {text} : Unnamed text → text.take 2 = ascii "-l" ∧ 2 < text.length →
      Means text (logAttached text)
  | fuseOption {text} : Unnamed text → ¬(text.take 2 = ascii "-l" ∧ 2 < text.length) →
      text.head? = some 0x2d → Means text (fuseOption text)
  | positional {text} : Unnamed text → ¬(text.take 2 = ascii "-l" ∧ 2 < text.length) →
      text.head? ≠ some 0x2d → Means text (positional text)

theorem means_ofText (text : List UInt8) : Means text (ofText text) := by
  unfold ofText
  split
  · next same =>
      subst same
      exact .noCache
  next notNoCache =>
  split
  · next size =>
      have means := Means.cacheSize (text.drop 13)
      rw [← size, List.take_append_drop] at means
      exact means
  next notSize =>
  split
  · next help => exact .help help
  next notHelp =>
  split
  · next version => exact .version version
  next notVersion =>
  split
  · next flag => exact .log flag
  next notLog =>
  have unnamed : Unnamed text := ⟨notNoCache, notSize, notHelp, notVersion, notLog⟩
  split
  · next starts =>
      refine .logAttached unnamed ⟨starts, ?_⟩
      by_contra short
      rw [List.take_of_length_le (Nat.le_of_not_lt short)] at starts
      exact notLog (.inl starts)
  next notAttached =>
  split
  · next dash => exact .fuseOption unnamed (fun both => notAttached both.1) dash
  · next notDash => exact .positional unnamed (fun both => notAttached both.1) notDash

/-- What the first pass makes of arguments that ask for no text. -/
def options (arguments : List MainArgument) : MainOptions where
  noCache := decide (noCache ∈ arguments)
  cacheSizeMb := (arguments.filterMap cacheSize?).getLast?.getD defaultCacheSizeMb
  imageFile := (arguments.filterMap positional?)[0]?
  mountPoint := (arguments.filterMap positional?)[1]?

section Passes

variable {front : List MainArgument} {argument : MainArgument}

private theorem options_noCache :
    options (front ++ [noCache]) = { options front with noCache := true } := by
  simp [options, List.filterMap_cons, cacheSize?, positional?]

private theorem options_cacheSize (text : List UInt8) :
    options (front ++ [cacheSize text]) =
      { options front with cacheSizeMb := ofInt64 (atoi text) } := by
  simp [options, List.filterMap_cons, cacheSize?, positional?]

private theorem options_positional (text : List UInt8) :
    options (front ++ [positional text]) = (options front).addPositional text := by
  cases positionals : front.filterMap positional? with
  | nil => simp [options, cacheSize?, positional?, MainOptions.addPositional, positionals]
  | cons first others =>
      cases others with
      | nil => simp [options, cacheSize?, positional?, MainOptions.addPositional, positionals]
      | cons second others =>
          simp [options, cacheSize?, positional?, MainOptions.addPositional, positionals]

theorem options_other (argument : MainArgument) (notNoCache : noCache ≠ argument)
    (notSize : cacheSize? argument = none) (notPositional : positional? argument = none) :
    options (front ++ [argument]) = options front := by
  simp [options, notNoCache, notSize, notPositional]

private theorem cacheSize_text (text : List UInt8) :
    ascii "--cache-size=" ++ text ≠ ascii "--nocache" ∧
      (ascii "--cache-size=" ++ text).take 13 = ascii "--cache-size=" ∧
      (ascii "--cache-size=" ++ text).drop 13 = text := by
  have length : (ascii "--cache-size=").length = 13 := by decide +kernel
  refine ⟨?_, List.take_left' length, List.drop_left' length⟩
  intro same
  have prefixes := congrArg (List.take 13) same
  rw [List.take_left' length] at prefixes
  exact absurd prefixes (by decide +kernel)

private theorem firstPass_cons {text : List UInt8} (means : Means text argument)
    (alone : ∀ flag path, argument ≠ log flag path) (rest : List (List UInt8)) :
    firstPass (options front) (text :: rest) =
      if argument.isUsage then none else firstPass (options (front ++ [argument])) rest := by
  rw [firstPass.eq_def]
  dsimp only
  cases means with
  | noCache =>
      rw [options_noCache, if_pos rfl]
      rfl
  | cacheSize text =>
      rcases cacheSize_text text with ⟨different, size, value⟩
      rw [if_neg different, if_pos size, value, options_cacheSize]
      rfl
  | help asks =>
      rcases asks with rfl | rfl
      · exact (if_neg (by decide +kernel)).trans ((if_neg (by decide +kernel)).trans
          (if_pos (.inl rfl)))
      · exact (if_neg (by decide +kernel)).trans ((if_neg (by decide +kernel)).trans
          (if_pos (.inr rfl)))
  | version asks =>
      have names : ∀ name ∈ [ascii "-V", ascii "--version"], name ≠ ascii "--nocache" ∧
          name.take 13 ≠ ascii "--cache-size=" ∧ name ≠ ascii "-h" ∧ name ≠ ascii "--help" := by
        decide +kernel
      have named : text ∈ [ascii "-V", ascii "--version"] := by simpa using asks
      rcases names text named with ⟨notNoCache, notSize, notH, notHelp⟩
      rw [if_neg notNoCache, if_neg notSize, if_neg (not_or.mpr ⟨notH, notHelp⟩), if_pos asks]
      rfl
  | log => exact absurd rfl (alone _ _)
  | logAttached unnamed starts =>
      rw [if_neg unnamed.noCache, if_neg unnamed.cacheSize, if_neg unnamed.help,
        if_neg unnamed.version, if_neg unnamed.log, if_pos starts,
        options_other (logAttached text) nofun rfl rfl]
      rfl
  | fuseOption unnamed notAttached dash =>
      rw [if_neg unnamed.noCache, if_neg unnamed.cacheSize, if_neg unnamed.help,
        if_neg unnamed.version, if_neg unnamed.log, if_neg notAttached,
        if_neg (not_not.mpr dash), options_other (fuseOption text) nofun rfl rfl]
      rfl
  | positional unnamed notAttached notDash =>
      rw [if_neg unnamed.noCache, if_neg unnamed.cacheSize, if_neg unnamed.help,
        if_neg unnamed.version, if_neg unnamed.log, if_neg notAttached, if_pos notDash,
        options_positional]
      rfl

private theorem not_named_of_flag {text : List UInt8} (flag : text = ascii "-l" ∨ text = ascii "--log") :
    text ≠ ascii "--nocache" ∧ text.take 13 ≠ ascii "--cache-size=" ∧
      ¬(text = ascii "-h" ∨ text = ascii "--help") ∧
      ¬(text = ascii "-V" ∨ text = ascii "--version") := by
  rcases flag with rfl | rfl
  · decide +kernel
  · decide +kernel

private theorem firstPass_flag (options : MainOptions) {text : List UInt8}
    (flag : text = ascii "-l" ∨ text = ascii "--log") (rest : List (List UInt8)) :
    firstPass options (text :: rest) =
      match rest with
      | [] => some options
      | _ :: rest => firstPass options rest := by
  rcases not_named_of_flag flag with ⟨notNoCache, notSize, notHelp, notVersion⟩
  rw [firstPass.eq_def]
  dsimp only
  rw [if_neg notNoCache, if_neg notSize, if_neg notHelp, if_neg notVersion, if_pos flag]

theorem flag_of_log {text flag : List UInt8} {path : Option (List UInt8)}
    (means : ofText text = log flag path) :
    (text = ascii "-l" ∨ text = ascii "--log") ∧ flag = text := by
  have known := means_ofText text
  rw [means] at known
  cases known with
  | log flagText => exact ⟨flagText, rfl⟩

theorem read_cons {text : List UInt8} (alone : ∀ flag path, ofText text ≠ log flag path)
    (rest : List (List UInt8)) : read (text :: rest) = ofText text :: read rest := by
  rw [read]
  split
  · next means => exact absurd means (alone _ _)
  · rfl

/-- The first pass collects what the arguments say, up to one that asks for a text. -/
theorem firstPass_eq (argv : List (List UInt8)) (front : List MainArgument) :
    firstPass (options front) argv =
      if (read argv).any isUsage then none else some (options (front ++ read argv)) := by
  induction argv using read.induct generalizing front with
  | case1 => simp [firstPass, read]
  | case2 text flag path means =>
      rcases flag_of_log means with ⟨flagText, rfl⟩
      rw [firstPass_flag _ flagText, read, means]
      exact (congrArg some (options_other (log flag none) nofun rfl rfl)).symm
  | case3 text flag path means next rest induction =>
      rcases flag_of_log means with ⟨flagText, rfl⟩
      rw [firstPass_flag _ flagText, read, means]
      dsimp only
      have same : options (front ++ [log flag (some next)]) = options front :=
        options_other _ nofun rfl rfl
      rw [← same, induction, List.any_cons, List.append_assoc]
      rfl
  | case4 text rest notLog induction =>
      rw [firstPass_cons (means_ofText text) notLog, read_cons notLog, induction, List.any_cons,
        List.append_assoc]
      cases (ofText text).isUsage
      · rfl
      · rfl

private theorem passed_of_usage {text : List UInt8}
    (asks : (text = ascii "-h" ∨ text = ascii "--help") ∨
      (text = ascii "-V" ∨ text = ascii "--version")) :
    ¬(text = ascii "--nocache" ∨ text.take 13 = ascii "--cache-size=") ∧
      ¬(text = ascii "-l" ∨ text = ascii "--log") ∧
      ¬(text.take 2 = ascii "-l" ∧ 2 < text.length) ∧ text.head? = some 0x2d := by
  rcases asks with (rfl | rfl) | (rfl | rfl)
  · decide +kernel
  · decide +kernel
  · decide +kernel
  · decide +kernel

/-- The second pass leaves to FUSE what is no option of the program, but for the image. -/
theorem secondPass_eq {imageFile : List UInt8} (notDash : imageFile.head? ≠ some 0x2d)
    (argv : List (List UInt8)) :
    secondPass imageFile argv = (read argv).flatMap (forFuse imageFile) := by
  have flagged {text : List UInt8} (flag : text = ascii "-l" ∨ text = ascii "--log")
      (rest : List (List UInt8)) : secondPass imageFile (text :: rest) =
        match rest with
        | [] => []
        | _ :: rest => secondPass imageFile rest := by
    rcases not_named_of_flag flag with ⟨notNoCache, notSize, -, -⟩
    rw [secondPass.eq_def]
    dsimp only
    rw [if_neg (not_or.mpr ⟨notNoCache, notSize⟩), if_pos flag]
  have dashed {text : List UInt8} (dash : text.head? = some 0x2d) : text ≠ imageFile :=
    fun same => notDash (same ▸ dash)
  induction argv using read.induct with
  | case1 => rfl
  | case2 text flag path means =>
      rcases flag_of_log means with ⟨flagText, rfl⟩
      rw [flagged flagText, read, means]
      rfl
  | case3 text flag path means next rest induction =>
      rcases flag_of_log means with ⟨flagText, rfl⟩
      rw [flagged flagText, read, means]
      exact induction
  | case4 text rest notLog induction =>
      rw [read_cons notLog, List.flatMap_cons, ← induction, secondPass.eq_def]
      dsimp only
      have known := means_ofText text
      generalize ofText text = argument at known notLog ⊢
      cases known with
      | noCache => exact if_pos (.inl rfl)
      | cacheSize size => exact if_pos (.inr (cacheSize_text size).2.1)
      | log => exact absurd rfl (notLog _ _)
      | help asks =>
          rcases passed_of_usage (.inl asks) with ⟨notOwn, notFlag, notAttached, dash⟩
          rw [if_neg notOwn, if_neg notFlag, if_neg notAttached, if_neg (dashed dash)]
          rfl
      | version asks =>
          rcases passed_of_usage (.inr asks) with ⟨notOwn, notFlag, notAttached, dash⟩
          rw [if_neg notOwn, if_neg notFlag, if_neg notAttached, if_neg (dashed dash)]
          rfl
      | logAttached unnamed starts =>
          rw [if_neg (not_or.mpr ⟨unnamed.noCache, unnamed.cacheSize⟩), if_neg unnamed.log,
            if_pos starts]
          rfl
      | fuseOption unnamed notAttached dash =>
          rw [if_neg (not_or.mpr ⟨unnamed.noCache, unnamed.cacheSize⟩), if_neg unnamed.log,
            if_neg notAttached, if_neg (dashed dash)]
          rfl
      | positional unnamed notAttached =>
          rw [if_neg (not_or.mpr ⟨unnamed.noCache, unnamed.cacheSize⟩), if_neg unnamed.log,
            if_neg notAttached]
          by_cases same : text = imageFile
          · rw [if_pos same, forFuse, if_pos same]
            rfl
          · rw [if_neg same, forFuse, if_neg same]
            rfl

private theorem flatMap_texts_read (argv : List (List UInt8)) : (read argv).flatMap texts = argv := by
  induction argv using read.induct with
  | case1 => rfl
  | case2 text flag path means =>
      rcases flag_of_log means with ⟨-, rfl⟩
      rw [read, means]
      rfl
  | case3 text flag path means next rest induction =>
      rcases flag_of_log means with ⟨-, rfl⟩
      rw [read, means]
      dsimp only
      rw [List.flatMap_cons, induction]
      rfl
  | case4 text rest notLog induction =>
      rw [read_cons notLog, List.flatMap_cons, induction]
      have known := means_ofText text
      generalize ofText text = argument at known notLog ⊢
      cases known with
      | log => exact absurd rfl (notLog _ _)
      | _ => rfl

private theorem not_dash_of_positional (argv : List (List UInt8)) :
    ∀ text ∈ (read argv).filterMap positional?, text.head? ≠ some 0x2d := by
  have alone (text : List UInt8) :
      ∀ name ∈ (ofText text).positional?, name.head? ≠ some 0x2d := by
    have known := means_ofText text
    generalize ofText text = argument at known ⊢
    cases known with
    | positional unnamed notAttached notDash =>
        rintro name ⟨⟩
        exact notDash
    | _ => nofun
  induction argv using read.induct with
  | case1 => nofun
  | case2 text flag path means =>
      rw [read, means]
      nofun
  | case3 text flag path means next rest induction =>
      rw [read, means]
      exact induction
  | case4 text rest notLog induction =>
      rw [read_cons notLog]
      intro name inside
      rcases List.mem_filterMap.mp inside with ⟨argument, member, isName⟩
      rcases List.mem_cons.mp member with rfl | member
      · exact alone text name isName
      · exact induction name (List.mem_filterMap.mpr ⟨argument, member, isName⟩)

private theorem forFuse_sublist (imageFile : List UInt8) (argument : MainArgument) :
    (forFuse imageFile argument).Sublist argument.texts := by
  cases argument with
  | positional text =>
      rw [forFuse]
      split
      · exact List.nil_sublist _
      · exact .refl _
  | usage text => exact .refl _
  | fuseOption text => exact .refl _
  | _ => exact List.nil_sublist _

end Passes

end MainArgument

open MainArgument

/-- The arguments are read in one way only, with nothing left over. Unless a text is asked for,
the first positional argument is mounted, if there is a second one, and FUSE gets the arguments
that are no options of the program, in their order, without the ones that name the image. -/
theorem fuseMain_reads (sqfsCompressorCreate : Nat → Option Compressor)
    (openImage : List UInt8 → Option Image) (program : List UInt8) (argv : List (List UInt8)) :
    (read argv).flatMap texts = argv ∧
      (∀ imageFile, ((read argv).flatMap (forFuse imageFile)).Sublist argv) ∧
      fuseMain sqfsCompressorCreate openImage program argv =
        if (read argv).any isUsage then
          .exits 0
        else
          match (read argv).filterMap positional? with
          | imageFile :: _ :: _ =>
              mainMount sqfsCompressorCreate openImage (options (read argv)) imageFile
                (program :: (read argv).flatMap (forFuse imageFile))
          | _ => .exits 1 := by
  have whole := flatMap_texts_read argv
  refine ⟨whole, ?_, ?_⟩
  · intro imageFile
    have inOrder := List.Sublist.flatMap_right (read argv) fun argument _ =>
      forFuse_sublist imageFile argument
    rw [whole] at inOrder
    exact inOrder
  · have first : firstPass .initial argv =
        if (read argv).any isUsage then none else some (options (read argv)) :=
      firstPass_eq argv []
    rw [fuseMain, first]
    by_cases asks : (read argv).any isUsage = true
    · rw [if_pos asks, if_pos asks]
    · rw [if_neg asks, if_neg asks]
      have notDash := not_dash_of_positional argv
      cases positionals : (read argv).filterMap positional? with
      | nil => simp [options, positionals]
      | cons imageFile others =>
          rw [positionals] at notDash
          have second := secondPass_eq (notDash imageFile List.mem_cons_self) argv
          cases others with
          | nil => simp [options, positionals]
          | cons mountPoint others => simp [options, positionals, second]

end SquashfsFuse
