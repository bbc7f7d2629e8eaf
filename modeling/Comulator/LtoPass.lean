import Comulator.ChopFrame
import Comulator.ConfigJson
import Comulator.OutlineRun
import Comulator.SharedDisk

namespace Comulator.LtoPass

open Types Ir TypeHash Symtbl HostIr TakeOut ChopOff Analyze Lookups Outline PickUp ConfigJson SharedDisk
open SymtblJson (utohexstr hexDigit)

inductive HostGlobal
  | extreftbl
  | cbstubtbl
  | hfunctblSize
  | hfunctbl
  | functbl

def HostGlobal.name (hex : String) : HostGlobal → String
  | .extreftbl => "__gyh_extreftbl_" ++ hex
  | .cbstubtbl => "__gyh_cbstubtbl_" ++ hex
  | .hfunctblSize => "__gyh_hfunctbl_size_" ++ hex
  | .hfunctbl => "__gyh_hfunctbl_" ++ hex
  | .functbl => "__gyh_functbl_" ++ hex

/-- What the pass saves, as the values that are printed; the variables of a host module
are named by its uid. -/
inductive Artifact
  | ir (symbols : List GlobalValue)
  | bwList (bw : BwList)
  | symtbl (t : Symtbl)
  | host (hex : String) (globals : List HostGlobal) (M : HostModule)
  | guest (m : Module) (G : GuestModule)

/-- The module when the pass returns: a chopped one is given by what it was, and by
what is chopped off. -/
inductive Left
  | symbols (l : List GlobalValue)
  | chopped (m : Module) (G : GuestModule)

structure Report where
  left : Left
  uid : Option UInt32
  diagnostic : Option String

structure Link where
  hash : HashOps
  layout : Layout
  numbers : IntrinsicNumbers
  names : Nat → GValue → String
  module : PickModule
  config : FullConfig

abbrev Pass (α : Type) := Prog UInt32 String String Artifact String α

section Config

variable (config : FullConfig)

def chopOffConfig : Config :=
  ⟨config.debug, config.useGRT, false, config.useFCPcm, config.minBasicBlocks, config.minInstructions⟩

def takeOutConfig : Config := ⟨config.debug, config.useGRT, config.useFCP, config.useFCPcm, 0, 0⟩

def irFile (name : String) : String := name ++ (if config.llOrBc then ".ll" else ".bc")

def otherFile (name : String) : String := name ++ (if config.llOrBc then ".bc" else ".ll")

def hostGlobals : List HostGlobal :=
  (if config.useGRT then [.extreftbl, .cbstubtbl] else []) ++ [.hfunctblSize, .hfunctbl] ++
    (if config.useFCPcm then [.functbl] else [])

end Config

section Run

variable (configDir : String) (P : Link)

def uidText (uid : UInt32) : String := utohexstr uid.toNat 8

def uidDir (uid : UInt32) : String := configDir ++ "/guest/" ++ uidText uid

def hostArtifact (uid : UInt32) (M : HostModule) : Artifact := .host (uidText uid) (hostGlobals P.config) M

/-- The loop over `create_directories`, with the directory it has tried last. -/
def newDir : Nat → String → Pass (Except String (UInt32 × String))
  | 0, dir => return .error dir
  | n + 1, _ => do
      let uid ← number
      let made ← makeDir (uidDir configDir uid)
      if made then return .ok (uid, uidDir configDir uid) else newDir n (uidDir configDir uid)

def save (dir file : String) (c : Artifact) (message : String → String → String) : Pass (Option String) := do
  match ← createFile dir file with
  | some e => return some (message (dir ++ "/" ++ file) e)
  | none => do
      writeFile dir file c
      return none

def saveIR (dir name : String) (c : Artifact) : Pass (Option String) :=
  save dir (irFile P.config name) c (fun path e => "fail to save '" ++ path ++ "': " ++ e)

def toFile (dir file : String) (c : Artifact) : Pass (Option String) :=
  save dir file c (fun path e => "fail to save '" ++ path ++ "': '" ++ path ++ "': " ++ e)

def openLog (dir : String) : Pass (Option String) := do
  match ← createFile dir "log.jsonl" with
  | some e => return some ("fail to create log file '" ++ dir ++ "/log.jsonl': " ++ e)
  | none => return none

def attempt (left : Left) (uid : UInt32) (x : Pass (Option String)) (next : Pass Report) : Pass Report := do
  match ← x with
  | some msg => return ⟨left, some uid, some msg⟩
  | none => next

def chop (uid : UInt32) (dir : String) (bw : BwList) (m : Module) : Pass Report :=
  match chopOff m (chopOffConfig P.config) bw (analyze P.hash P.layout m bw uid.toNat) with
  | none => .stop
  | some G =>
      attempt (.chopped m G) uid (saveIR P dir "guest" (.guest m G)) (return ⟨.chopped m G, some uid, none⟩)

def take (uid : UInt32) (dir : String) (bw : BwList) (m : Module) : Pass Report :=
  match takeOut (analyzed P.hash P.layout m (takeOutConfig P.config) bw uid.toNat) with
  | .error _ => .stop
  | .ok M => attempt (.symbols m.symbols) uid (saveIR P dir "host" (hostArtifact P uid M)) (chop P uid dir bw m)

/-- The pass from `Analyze` on; nothing is said of an invalid module. -/
def analyzeOn (uid : UInt32) (dir : String) (bw : BwList) (symbols : List GlobalValue) : Pass Report :=
  if h : Module.verify symbols = true then
    attempt (.symbols symbols) uid
      (toFile dir "symtbl.json" (.symtbl (analyze P.hash P.layout ⟨symbols, h⟩ bw uid.toNat)))
      (take P uid dir bw ⟨symbols, h⟩)
  else .stop

def outlineOn (uid : UInt32) (dir : String) (bw : BwList) : Pass Report :=
  if P.config.usePFO then
    attempt (.symbols (outline P.hash P.names P.module.toModule bw)) uid
      (saveIR P dir "outlined" (.ir (outline P.hash P.names P.module.toModule bw)))
      (analyzeOn P uid dir bw (outline P.hash P.names P.module.toModule bw))
  else analyzeOn P uid dir bw P.module.symbols

/-- The pass from `PickUp` on, which may come to no end. -/
def pickUpOn (uid : UInt32) (dir : String) : Pass Report :=
  match pickUp P.numbers P.module P.config.bwList with
  | none => .stop
  | some bw =>
      attempt (.symbols P.module.symbols) uid (toFile dir "bw-list.json" (.bwList bw)) (outlineOn P uid dir bw)

def run : Pass Report := do
  match ← newDir configDir 3 "" with
  | .error dir => return ⟨.symbols P.module.symbols, none, some ("fail to create uid dir: " ++ dir)⟩
  | .ok (uid, dir) =>
      attempt (.symbols P.module.symbols) uid (openLog dir)
        (attempt (.symbols P.module.symbols) uid (saveIR P dir "allin1" (.ir P.module.symbols)) (pickUpOn P uid dir))

end Run

section Names

def hexValue (l : List Char) : Nat := l.foldl (fun n c => 16 * n + ((hexDigit c).getD 0)) 0

theorem hexDigit_digitChar : ∀ {d : Nat}, d < 16 → hexDigit (Nat.digitChar d).toUpper = some d := by
  decide

theorem hexValue_append (l : List Char) (c : Char) :
    hexValue (l ++ [c]) = 16 * hexValue l + (hexDigit c).getD 0 := by
  simp [hexValue]

theorem hexValue_toDigits (n : Nat) : hexValue ((Nat.toDigits 16 n).map Char.toUpper) = n := by
  induction n using Nat.strongRecOn with
  | ind n ih =>
      by_cases hn : n < 16
      · rw [Nat.toDigits_of_lt_base hn, List.map_singleton, hexValue, List.foldl_cons, List.foldl_nil, hexDigit_digitChar hn]
        exact Nat.zero_add n
      · have hle : 16 ≤ n := Nat.le_of_not_lt hn
        rw [Nat.toDigits_of_base_le (by decide) hle, List.map_append, List.map_singleton, hexValue_append,
          ih (n / 16) (Nat.div_lt_self (by omega) (by decide)), hexDigit_digitChar (Nat.mod_lt _ (by decide))]
        exact Nat.div_add_mod n 16

theorem hexValue_leftpad (width : Nat) (l : List Char) : hexValue (l.leftpad width '0') = hexValue l := by
  rw [List.leftpad]
  induction width - l.length with
  | zero => rfl
  | succ k ih =>
      rw [List.replicate_succ, List.cons_append]
      exact ih

theorem hexValue_uidText (uid : UInt32) : hexValue (uidText uid).toList = uid.toNat := by
  rw [uidText, utohexstr, String.toList_ofList]
  split
  next hzero =>
    rw [hzero]
    rfl
  next => rw [List.nil_append, hexValue_leftpad, hexValue_toDigits]

/-- Two uids have two directories. -/
theorem uidDir_injective (configDir : String) : Function.Injective (uidDir configDir) := by
  intro a b h
  have htext : (uidText a).toList = (uidText b).toList := by
    have hlist := congrArg String.toList h
    simp only [uidDir, String.toList_append] at hlist
    exact List.append_cancel_left hlist
  have hvalue := congrArg hexValue htext
  rw [hexValue_uidText, hexValue_uidText] at hvalue
  exact UInt32.toNat_inj.mp hvalue

end Names

section Tidiness

variable (configDir : String) {P : Link} {own : List String} {dir : String}

/-- A directory that the loop comes back with is one that it has made. -/
theorem newDir_tidy {T : Except String (UInt32 × String) → List String → Prop} (n : Nat) (last : String)
    (hok : ∀ uid, T (.ok (uid, uidDir configDir uid)) (uidDir configDir uid :: own)) (herror : ∀ dir, T (.error dir) own) :
    (newDir configDir n last).Tidy T own := by
  induction n generalizing last with
  | zero => exact herror last
  | succ n ih =>
      intro uid
      constructor
      · exact hok uid
      · exact ih (uidDir configDir uid)

theorem attempt_tidy {left : Left} {uid : UInt32} {x : Pass (Option String)} {next : Pass Report}
    (hx : x.Tidy (fun _ own' => own' = own) own) (hnext : next.Tidy (fun _ _ => True) own) :
    (attempt left uid x next).Tidy (fun _ _ => True) own := by
  apply Prog.Tidy.bind
  apply hx.imp
  rintro r own' rfl
  cases r with
  | some msg => trivial
  | none => exact hnext

theorem save_tidy {file : String} {c : Artifact} {message : String → String → String} (hdir : dir ∈ own) :
    (save dir file c message).Tidy (fun _ own' => own' = own) own := by
  constructor
  · exact hdir
  · intro e
    cases e with
    | some e => rfl
    | none => exact ⟨hdir, rfl⟩

theorem openLog_tidy (hdir : dir ∈ own) : (openLog dir).Tidy (fun _ own' => own' = own) own := by
  constructor
  · exact hdir
  · intro e
    cases e <;> rfl

theorem chop_tidy {uid : UInt32} {bw : BwList} {m : Module} (hdir : dir ∈ own) :
    (chop P uid dir bw m).Tidy (fun _ _ => True) own := by
  unfold chop
  split
  · trivial
  · apply attempt_tidy (save_tidy hdir)
    trivial

theorem take_tidy {uid : UInt32} {bw : BwList} {m : Module} (hdir : dir ∈ own) :
    (take P uid dir bw m).Tidy (fun _ _ => True) own := by
  unfold take
  split
  · trivial
  · exact attempt_tidy (save_tidy hdir) (chop_tidy hdir)

theorem analyzeOn_tidy {uid : UInt32} {bw : BwList} {symbols : List GlobalValue} (hdir : dir ∈ own) :
    (analyzeOn P uid dir bw symbols).Tidy (fun _ _ => True) own := by
  unfold analyzeOn
  split
  · exact attempt_tidy (save_tidy hdir) (take_tidy hdir)
  · trivial

theorem outlineOn_tidy {uid : UInt32} {bw : BwList} (hdir : dir ∈ own) :
    (outlineOn P uid dir bw).Tidy (fun _ _ => True) own := by
  unfold outlineOn
  split
  · exact attempt_tidy (save_tidy hdir) (analyzeOn_tidy hdir)
  · exact analyzeOn_tidy hdir

theorem pickUpOn_tidy {uid : UInt32} (hdir : dir ∈ own) : (pickUpOn P uid dir).Tidy (fun _ _ => True) own := by
  unfold pickUpOn
  split
  · trivial
  · exact attempt_tidy (save_tidy hdir) (outlineOn_tidy hdir)

theorem run_tidy : (run configDir P).Tidy (fun _ _ => True) [] := by
  apply Prog.Tidy.bind
  apply newDir_tidy
  · intro uid
    exact attempt_tidy (openLog_tidy List.mem_cons_self)
      (attempt_tidy (save_tidy List.mem_cons_self) (pickUpOn_tidy List.mem_cons_self))
  · exact fun _ => trivial

end Tidiness

section Consistency

variable (P : Link)

def inputSymbols (bw : BwList) : List GlobalValue :=
  if P.config.usePFO then outline P.hash P.names P.module.toModule bw else P.module.symbols

/-- The lists, the symbol table and the host module in a directory are those of one
run, over the module `m`. -/
structure Matching (uid : UInt32) (files : Files String Artifact) (bw : BwList) (m : Module) (M : HostModule) : Prop where
  picked : pickUp P.numbers P.module P.config.bwList = some bw
  symbols : m.symbols = inputSymbols P bw
  taken : takeOut (analyzed P.hash P.layout m (takeOutConfig P.config) bw uid.toNat) = .ok M
  bwList : files "bw-list.json" = some (some (.bwList bw))
  symtbl : files "symtbl.json" = some (some (.symtbl (analyze P.hash P.layout m bw uid.toNat)))
  host : files (irFile P.config "host") = some (some (hostArtifact P uid M))
  only : files (otherFile P.config "host") = none

/-- A host or guest module that has been written has all that belongs to it beside it. -/
structure Consistent (uid : UInt32) (files : Files String Artifact) : Prop where
  host : ∀ c, files (irFile P.config "host") = some (some c) → ∃ bw m M, c = hostArtifact P uid M ∧ Matching P uid files bw m M
  guest : ∀ c, files (irFile P.config "guest") = some (some c) → ∃ bw m M G, c = .guest m G ∧ Matching P uid files bw m M ∧
    chopOff m (chopOffConfig P.config) bw (analyze P.hash P.layout m bw uid.toNat) = some G

structure Reported (configDir : String) (K₀ K : Disk String String Artifact) (r : Report) : Prop where
  failed : r.uid = none → r.left = .symbols P.module.symbols
  fresh : ∀ uid, r.uid = some uid → K₀.dirs (uidDir configDir uid) = false ∧ K.dirs (uidDir configDir uid) = true
  symbols : ∀ l, r.left = .symbols l → r.diagnostic ≠ none ∧ (l = P.module.symbols ∨
    ∃ bw, pickUp P.numbers P.module P.config.bwList = some bw ∧ l = inputSymbols P bw)
  chopped : ∀ m G, r.left = .chopped m G → ∃ uid bw M, r.uid = some uid ∧
    Matching P uid (K.files (uidDir configDir uid)) bw m M ∧
    chopOff m (chopOffConfig P.config) bw (analyze P.hash P.layout m bw uid.toNat) = some G ∧
    (r.diagnostic = none → K.files (uidDir configDir uid) (irFile P.config "guest") = some (some (.guest m G)))

variable {P} {uid : UInt32} {files : Files String Artifact} {bw : BwList} {m : Module} {M : HostModule}

theorem irFile_ne (config : FullConfig) {a b : String} (h : a ≠ b) : irFile config a ≠ irFile config b := by
  intro heq
  have hlist := congrArg String.toList heq
  simp only [irFile, String.toList_append] at hlist
  exact h (String.toList_injective (List.append_cancel_right hlist))

theorem irFile_ne_json (config : FullConfig) (a : String) {b : String} (h : b.toList.getLast? = some 'n') :
    irFile config a ≠ b := by
  rintro rfl
  unfold irFile at h
  cases hext : config.llOrBc <;> simp [hext] at h

theorem otherFile_ne (config : FullConfig) (a b : String) : otherFile config a ≠ irFile config b := by
  intro heq
  have hlast := congrArg (fun t => t.toList.getLast?) heq
  unfold otherFile irFile at hlast
  cases hext : config.llOrBc <;> simp [hext] at hlast

theorem otherFile_ne_json (config : FullConfig) (a : String) {b : String} (h : b.toList.getLast? = some 'n') :
    otherFile config a ≠ b := by
  rintro rfl
  unfold otherFile at h
  cases hext : config.llOrBc <;> simp [hext] at h

theorem otherFile_ne_log (config : FullConfig) (a : String) : otherFile config a ≠ "log.jsonl" := by
  intro heq
  have hlast := congrArg (fun t => t.toList.reverse.take 2) heq
  unfold otherFile at hlast
  cases hext : config.llOrBc <;> simp [hext] at hlast

/-- A file of another name may be saved. -/
theorem Matching.update (h : Matching P uid files bw m M) {file : String} (c : Option (Option Artifact))
    (hbw : file ≠ "bw-list.json") (hsymtbl : file ≠ "symtbl.json") (hhost : file ≠ irFile P.config "host")
    (hother : file ≠ otherFile P.config "host") :
    Matching P uid (Function.update files file c) bw m M where
  picked := h.picked
  symbols := h.symbols
  taken := h.taken
  bwList := (Function.update_of_ne hbw.symm _ _).trans h.bwList
  symtbl := (Function.update_of_ne hsymtbl.symm _ _).trans h.symtbl
  host := (Function.update_of_ne hhost.symm _ _).trans h.host
  only := (Function.update_of_ne hother.symm _ _).trans h.only

end Consistency

section Placed

variable {configDir : String} {K₀ : Disk String String Artifact} {P : Link} {uid : UInt32} {files : Files String Artifact}
  {bw : BwList} {m : Module} {M : HostModule} {file : String} {left : Left} {next : Pass Report}

def placed (K₀ : Disk String String Artifact) (dir : String) (files : Files String Artifact) : Disk String String Artifact :=
  ⟨Function.update K₀.dirs dir true, Function.update K₀.files dir files⟩

structure Kept (configDir : String) (P : Link) (K₀ K : Disk String String Artifact) : Prop where
  dirs : ∀ dir, K.dirs dir = true → K₀.dirs dir = true ∨ ∃ uid, dir = uidDir configDir uid
  consistent : ∀ uid, K₀.dirs (uidDir configDir uid) = false → K.dirs (uidDir configDir uid) = true →
    Consistent P uid (K.files (uidDir configDir uid))

@[simp] theorem placed_dirs (dir : String) : (placed K₀ dir files).dirs dir = true := Function.update_self ..

@[simp] theorem placed_files (dir : String) : (placed K₀ dir files).files dir = files := Function.update_self ..

theorem placed_put (dir : String) (c : Option Artifact) :
    (placed K₀ dir files).put dir file c = placed K₀ dir (Function.update files file (some c)) := by
  simp [placed, Disk.put]

theorem placed_create {dir : String} {K : Disk String String Artifact} (h : (placed K₀ dir files).apply (.create dir file) = some K) :
    K = placed K₀ dir (Function.update files file (some none)) := by
  rw [Disk.apply, if_pos (placed_dirs dir), placed_put] at h
  exact (Option.some.inj h).symm

theorem placed_dirs_of_ne {dir dir' : String} (h : dir' ≠ dir) : (placed K₀ dir files).dirs dir' = K₀.dirs dir' :=
  Function.update_of_ne h _ _

theorem kept_placed (h : Consistent P uid files) : Kept configDir P K₀ (placed K₀ (uidDir configDir uid) files) where
  dirs dir hdir := by
    by_cases hne : dir = uidDir configDir uid
    · exact .inr ⟨uid, hne⟩
    · rw [placed_dirs_of_ne hne] at hdir
      exact .inl hdir
  consistent uid' hold hnew := by
    by_cases hne : uidDir configDir uid' = uidDir configDir uid
    · rw [hne, placed_files, uidDir_injective configDir hne]
      exact h
    · rw [placed_dirs_of_ne hne, hold] at hnew
      cases hnew

theorem kept_refl (configDir : String) (P : Link) (K : Disk String String Artifact) : Kept configDir P K K where
  dirs _ hdir := .inl hdir
  consistent uid hold hnew := by
    rw [hold] at hnew
    cases hnew

/-- The rule for a file that is saved: the directory is consistent before, and with the
file open. -/
theorem attempt_save_holds {c : Artifact} {message : String → String → String} (hbefore : Consistent P uid files)
    (hopened : Consistent P uid (Function.update files file (some none)))
    (hfailed : ∀ msg, Reported P configDir K₀ (placed K₀ (uidDir configDir uid) files) ⟨left, some uid, some msg⟩)
    (hnext : next.Holds (Kept configDir P K₀) (fun r K => Reported P configDir K₀ K r)
      (placed K₀ (uidDir configDir uid) (Function.update files file (some (some c))))) :
    (attempt left uid (save (uidDir configDir uid) file c message) next).Holds (Kept configDir P K₀)
      (fun r K => Reported P configDir K₀ K r) (placed K₀ (uidDir configDir uid) files) := by
  apply Prog.Holds.bind
  refine ⟨kept_placed hbefore, ?_, ?_⟩
  · intro K hK
    rw [placed_create hK]
    refine ⟨kept_placed hopened, ?_⟩
    rw [placed_put, Function.update_idem]
    exact ⟨hnext.always, hnext⟩
  · exact fun e => ⟨kept_placed hbefore, kept_placed hbefore, hfailed _⟩

structure Unwritten (P : Link) (files : Files String Artifact) : Prop where
  host : ∀ c, files (irFile P.config "host") ≠ some (some c)
  guest : ∀ c, files (irFile P.config "guest") ≠ some (some c)
  only : files (otherFile P.config "host") = none

theorem Unwritten.consistent (h : Unwritten P files) : Consistent P uid files :=
  ⟨fun c hc => absurd hc (h.host c), fun c hc => absurd hc (h.guest c)⟩

theorem Unwritten.opened (h : Unwritten P files) (hother : otherFile P.config "host" ≠ file) :
    Unwritten P (Function.update files file (some none)) := by
  have hfile : ∀ name c, files name ≠ some (some c) → Function.update files file (some none) name ≠ some (some c) := by
    intro name c hc
    by_cases hname : name = file
    · simp [hname]
    · rw [Function.update_of_ne hname]
      exact hc
  exact ⟨fun c => hfile _ c (h.host c), fun c => hfile _ c (h.guest c), (Function.update_of_ne hother _ _).trans h.only⟩

theorem Unwritten.update (h : Unwritten P files) (c : Option (Option Artifact)) (hhost : file ≠ irFile P.config "host")
    (hguest : file ≠ irFile P.config "guest") (hother : otherFile P.config "host" ≠ file) :
    Unwritten P (Function.update files file c) where
  host := by
    rw [Function.update_of_ne hhost.symm]
    exact h.host
  guest := by
    rw [Function.update_of_ne hguest.symm]
    exact h.guest
  only := (Function.update_of_ne hother _ _).trans h.only

theorem reported_symbols (hfresh : K₀.dirs (uidDir configDir uid) = false) {l : List GlobalValue}
    (hl : l = P.module.symbols ∨ ∃ bw, pickUp P.numbers P.module P.config.bwList = some bw ∧ l = inputSymbols P bw)
    (msg : String) : Reported P configDir K₀ (placed K₀ (uidDir configDir uid) files) ⟨.symbols l, some uid, some msg⟩ where
  failed h := Option.some_ne_none uid h |>.elim
  fresh uid' h := by
    cases h
    exact ⟨hfresh, placed_dirs _⟩
  symbols l' h := by
    cases h
    exact ⟨Option.some_ne_none msg, hl⟩
  chopped m G h := by cases h

theorem reported_chopped (hfresh : K₀.dirs (uidDir configDir uid) = false) (h : Matching P uid files bw m M) {G : GuestModule}
    (hG : chopOff m (chopOffConfig P.config) bw (analyze P.hash P.layout m bw uid.toNat) = some G) {diagnostic : Option String}
    (hguest : diagnostic = none → files (irFile P.config "guest") = some (some (.guest m G))) :
    Reported P configDir K₀ (placed K₀ (uidDir configDir uid) files) ⟨.chopped m G, some uid, diagnostic⟩ where
  failed h := Option.some_ne_none uid h |>.elim
  fresh uid' h := by
    cases h
    exact ⟨hfresh, placed_dirs _⟩
  symbols l h := by cases h
  chopped m' G' hleft := by
    cases hleft
    refine ⟨uid, bw, M, rfl, ?_⟩
    rw [placed_files]
    exact ⟨h, hG, hguest⟩

theorem chop_holds (hfresh : K₀.dirs (uidDir configDir uid) = false) (h : Matching P uid files bw m M)
    (hguest : ∀ c, files (irFile P.config "guest") ≠ some (some c)) :
    (chop P uid (uidDir configDir uid) bw m).Holds (Kept configDir P K₀) (fun r K => Reported P configDir K₀ K r)
      (placed K₀ (uidDir configDir uid) files) := by
  have hsaved : ∀ c, Matching P uid (Function.update files (irFile P.config "guest") c) bw m M := fun c =>
    h.update c (irFile_ne_json _ _ (by decide)) (irFile_ne_json _ _ (by decide)) (irFile_ne _ (by decide)) (otherFile_ne _ _ _).symm
  have hhost : ∀ {files' : Files String Artifact}, Matching P uid files' bw m M → ∀ c,
      files' (irFile P.config "host") = some (some c) → ∃ bw m M, c = hostArtifact P uid M ∧ Matching P uid files' bw m M := by
    intro files' h' c hc
    rw [h'.host] at hc
    cases hc
    exact ⟨bw, m, M, rfl, h'⟩
  have hbefore : Consistent P uid files := ⟨hhost h, fun c hc => absurd hc (hguest c)⟩
  unfold chop
  split
  case h_1 => exact kept_placed hbefore
  case h_2 G hG =>
    apply attempt_save_holds hbefore
    · refine ⟨hhost (hsaved _), fun c hc => ?_⟩
      simp at hc
    · intro msg
      exact reported_chopped hfresh h hG nofun
    · refine ⟨kept_placed ⟨hhost (hsaved _), fun c hc => ?_⟩, ?_⟩
      · rw [Function.update_self] at hc
        cases hc
        exact ⟨bw, m, M, G, rfl, hsaved _, hG⟩
      · exact reported_chopped hfresh (hsaved _) hG (fun _ => Function.update_self ..)

theorem take_holds (hfresh : K₀.dirs (uidDir configDir uid) = false)
    (hpick : pickUp P.numbers P.module P.config.bwList = some bw) (hm : m.symbols = inputSymbols P bw)
    (hbw : files "bw-list.json" = some (some (.bwList bw)))
    (hsymtbl : files "symtbl.json" = some (some (.symtbl (analyze P.hash P.layout m bw uid.toNat))))
    (hfiles : Unwritten P files) :
    (take P uid (uidDir configDir uid) bw m).Holds (Kept configDir P K₀) (fun r K => Reported P configDir K₀ K r)
      (placed K₀ (uidDir configDir uid) files) := by
  unfold take
  split
  case h_1 => exact kept_placed hfiles.consistent
  case h_2 M hM =>
    apply attempt_save_holds hfiles.consistent (hfiles.opened (otherFile_ne _ _ _)).consistent
    · exact reported_symbols hfresh (.inr ⟨bw, hpick, hm⟩)
    · have hhost : irFile P.config "guest" ≠ irFile P.config "host" := irFile_ne _ (by decide)
      have hmatch : Matching P uid (Function.update files (irFile P.config "host") (some (some (hostArtifact P uid M)))) bw m M :=
        ⟨hpick, hm, hM, (Function.update_of_ne (irFile_ne_json _ _ (by decide)).symm _ _).trans hbw,
          (Function.update_of_ne (irFile_ne_json _ _ (by decide)).symm _ _).trans hsymtbl, Function.update_self ..,
          (Function.update_of_ne (otherFile_ne _ _ _) _ _).trans hfiles.only⟩
      apply chop_holds hfresh hmatch
      intro c
      rw [Function.update_of_ne hhost]
      exact hfiles.guest c

theorem analyzeOn_holds (hfresh : K₀.dirs (uidDir configDir uid) = false)
    (hpick : pickUp P.numbers P.module P.config.bwList = some bw)
    (hbw : files "bw-list.json" = some (some (.bwList bw))) (hfiles : Unwritten P files) :
    (analyzeOn P uid (uidDir configDir uid) bw (inputSymbols P bw)).Holds (Kept configDir P K₀)
      (fun r K => Reported P configDir K₀ K r) (placed K₀ (uidDir configDir uid) files) := by
  unfold analyzeOn
  split
  case isFalse => exact kept_placed hfiles.consistent
  case isTrue hverify =>
    apply attempt_save_holds hfiles.consistent (hfiles.opened (otherFile_ne_json _ _ (by decide))).consistent
    · exact reported_symbols hfresh (.inr ⟨bw, hpick, rfl⟩)
    · apply take_holds hfresh hpick rfl
      · rw [Function.update_of_ne (by decide)]
        exact hbw
      · exact Function.update_self ..
      · exact hfiles.update _ (irFile_ne_json _ _ (by decide)).symm (irFile_ne_json _ _ (by decide)).symm
          (otherFile_ne_json _ _ (by decide))

theorem outlineOn_holds (hfresh : K₀.dirs (uidDir configDir uid) = false)
    (hpick : pickUp P.numbers P.module P.config.bwList = some bw)
    (hbw : files "bw-list.json" = some (some (.bwList bw))) (hfiles : Unwritten P files) :
    (outlineOn P uid (uidDir configDir uid) bw).Holds (Kept configDir P K₀)
      (fun r K => Reported P configDir K₀ K r) (placed K₀ (uidDir configDir uid) files) := by
  unfold outlineOn
  split
  case isTrue husePFO =>
    have hinput : inputSymbols P bw = outline P.hash P.names P.module.toModule bw := if_pos husePFO
    rw [← hinput]
    apply attempt_save_holds hfiles.consistent (hfiles.opened (otherFile_ne _ _ _)).consistent
    · exact reported_symbols hfresh (.inr ⟨bw, hpick, rfl⟩)
    · apply analyzeOn_holds hfresh hpick
      · rw [Function.update_of_ne (irFile_ne_json _ _ (by decide)).symm]
        exact hbw
      · exact hfiles.update _ (irFile_ne _ (by decide)) (irFile_ne _ (by decide)) (otherFile_ne _ _ _)
  case isFalse husePFO =>
    have hinput : inputSymbols P bw = P.module.symbols := if_neg husePFO
    rw [← hinput]
    exact analyzeOn_holds hfresh hpick hbw hfiles

theorem pickUpOn_holds (hfresh : K₀.dirs (uidDir configDir uid) = false) (hfiles : Unwritten P files) :
    (pickUpOn P uid (uidDir configDir uid)).Holds (Kept configDir P K₀) (fun r K => Reported P configDir K₀ K r)
      (placed K₀ (uidDir configDir uid) files) := by
  unfold pickUpOn
  split
  case h_1 => exact kept_placed hfiles.consistent
  case h_2 bw hpick =>
    apply attempt_save_holds hfiles.consistent (hfiles.opened (otherFile_ne_json _ _ (by decide))).consistent
    · exact reported_symbols hfresh (.inl rfl)
    · apply outlineOn_holds hfresh hpick
      · exact Function.update_self ..
      · exact hfiles.update _ (irFile_ne_json _ _ (by decide)).symm (irFile_ne_json _ _ (by decide)).symm
          (otherFile_ne_json _ _ (by decide))

/-- The pass from the log file on. -/
theorem openLog_holds (hfresh : K₀.dirs (uidDir configDir uid) = false) :
    (attempt (.symbols P.module.symbols) uid (openLog (uidDir configDir uid))
      (attempt (.symbols P.module.symbols) uid (saveIR P (uidDir configDir uid) "allin1" (.ir P.module.symbols))
        (pickUpOn P uid (uidDir configDir uid)))).Holds (Kept configDir P K₀) (fun r K => Reported P configDir K₀ K r)
      (placed K₀ (uidDir configDir uid) (fun _ => none)) := by
  have hnone : Unwritten P (fun _ => none) := ⟨fun _ => nofun, fun _ => nofun, rfl⟩
  have hlog := hnone.opened (otherFile_ne_log P.config "host")
  have hnext : (attempt (.symbols P.module.symbols) uid (saveIR P (uidDir configDir uid) "allin1" (.ir P.module.symbols))
      (pickUpOn P uid (uidDir configDir uid))).Holds (Kept configDir P K₀) (fun r K => Reported P configDir K₀ K r)
      (placed K₀ (uidDir configDir uid) (Function.update (fun _ => none) "log.jsonl" (some none))) := by
    apply attempt_save_holds hlog.consistent (hlog.opened (otherFile_ne _ _ _)).consistent
    · exact reported_symbols hfresh (.inl rfl)
    · exact pickUpOn_holds hfresh (hlog.update _ (irFile_ne _ (by decide)) (irFile_ne _ (by decide)) (otherFile_ne _ _ _))
  apply Prog.Holds.bind
  refine ⟨kept_placed hnone.consistent, ?_, ?_⟩
  · intro K hK
    rw [placed_create hK]
    exact ⟨hnext.always, hnext⟩
  · intro e
    exact ⟨kept_placed hnone.consistent, kept_placed hnone.consistent, reported_symbols hfresh (.inl rfl) _⟩

structure NewDir (configDir : String) (K₀ : Disk String String Artifact) (made : Except String (UInt32 × String))
    (K : Disk String String Artifact) : Prop where
  ok : ∀ uid dir, made = .ok (uid, dir) → dir = uidDir configDir uid ∧ K₀.dirs dir = false ∧ K = placed K₀ dir (fun _ => none)
  error : ∀ dir, made = .error dir → K = K₀

theorem newDir_holds (n : Nat) (last : String) :
    (newDir configDir n last).Holds (Kept configDir P K₀) (NewDir configDir K₀) K₀ := by
  have hkept := kept_refl configDir P K₀
  induction n generalizing last with
  | zero =>
      refine ⟨hkept, ?_, fun _ _ => rfl⟩
      intro uid dir h
      cases h
  | succ n ih =>
      refine ⟨hkept, fun uid => ⟨hkept, fun K hK => ?_, ih _⟩⟩
      have hnew := apply_made hK List.mem_cons_self
      obtain ⟨_, hK⟩ := Option.ite_none_left_eq_some.mp hK
      cases hK
      refine ⟨kept_placed ⟨fun _ => nofun, fun _ => nofun⟩, ?_, ?_⟩
      · intro uid' dir h
        cases h
        exact ⟨rfl, hnew, rfl⟩
      · intro dir h
        cases h

/-- One run alone. -/
theorem run_holds (configDir : String) (P : Link) (K₀ : Disk String String Artifact) :
    (run configDir P).Holds (Kept configDir P K₀) (fun r K => Reported P configDir K₀ K r) K₀ := by
  apply Prog.Holds.bind
  apply (newDir_holds 3 "").imp
  intro made K hmade hK
  cases made with
  | ok made =>
      obtain ⟨uid, dir⟩ := made
      obtain ⟨rfl, hfresh, rfl⟩ := hmade.ok uid dir rfl
      exact openLog_holds hfresh
  | error dir =>
      rw [hmade.error dir rfl] at hK ⊢
      refine ⟨hK, fun _ => rfl, ?_, ?_, ?_⟩
      · intro uid h
        cases h
      · intro l hl
        cases hl
        exact ⟨Option.some_ne_none _, .inl rfl⟩
      · intro m G h
        cases h

end Placed

section Example

def mixHash : HashOps where
  ofNat n := n
  combine l := l.foldl (fun n a => 31 * n + match a with | .code h => h | .word w => w | .flag b => b.toNat | .text t => t.length) 1
  valueFalse := 0
  typeId _ := 0
  attrKind _ := 0

def soloName (g : Nat) : String := if g = 0 then "f" else ""

theorem soloName_inj {g k : Nat} (h : soloName g = soloName k) (hg : soloName g ≠ "") : g = k := by
  unfold soloName at h hg
  split at h
  next h0 =>
    split at h
    next hk => rw [h0, hk]
    next => simp at h
  next h0 => exact absurd (if_neg h0) hg

def soloLink : Link where
  hash := mixHash
  layout := HostTable.plainLayout
  numbers := oneNumber
  names _ _ := ""
  module := ⟨⟨OutlineRun.soloModule, soloName⟩, fun _ _ _ _ => soloName_inj, []⟩
  config := ⟨true, false, true, false, false, false, 0, 0,
    ⟨[("f", ⟨some true, some true, some true, some true⟩)], [], [], false, List.nodup_singleton "f", List.nodup_nil⟩⟩

def soloList : BwList := (pickUp soloLink.numbers soloLink.module soloLink.config.bwList).getD .null

def emptyDisk : Disk String String Artifact := ⟨fun _ => false, fun _ _ => none⟩

def rivals : List (Bool × Answer UInt32 String) :=
  [(false, .number 7), (true, .number 7), (true, .done), (false, .refused), (false, .number 8), (false, .done),
    (false, .done)] ++ List.replicate 7 (true, .done) ++ [(false, .failed "no space")] ++ List.replicate 4 (true, .done) ++
    [(true, .failed "no space")]

end Example

section Pools

variable {ι : Type} [DecidableEq ι] {configDir : String} {P : ι → Link} {K₀ : Disk String String Artifact}
  {s : Pool ι UInt32 String String Artifact String Report} {l : List (ι × Answer UInt32 String)} {own : ι → List String}
  {alone : ι → Disk String String Artifact}

variable (configDir P K₀) in
def links : Pool ι UInt32 String String Artifact String Report := ⟨fun i => run configDir (P i), K₀⟩

/-- One of the two is chopped, the other is left as it was. -/
theorem rivals_run : ∃ s m G l M info, (links "/c" (fun _ : Bool => soloLink) emptyDisk).run rivals = some s ∧
    s.progs true = .ret ⟨.chopped m G, some 7, some "fail to save '/c/guest/00000007/guest.ll': no space"⟩ ∧
    s.progs false = .ret ⟨.symbols l, some 8, some "fail to save '/c/guest/00000008/allin1.ll': no space"⟩ ∧
    s.disk.dirs (uidDir "/c" 7) = true ∧
    s.disk.files (uidDir "/c" 7) (irFile soloLink.config "host") = some (some (hostArtifact soloLink 7 M)) ∧
    s.disk.dirs = Function.update (Function.update (fun _ => false) (uidDir "/c" 7) true) (uidDir "/c" 8) true ∧
    (∀ ext, s.disk.files (uidDir "/c" 8) ("host" ++ ext) = none) ∧ M.hfunctbl.length = 1 ∧
    (analyze mixHash soloLink.layout m soloList 7).functbl.find? 0 = some info ∧ info.uid = 0 :=
  ⟨_, _, _, _, _, _, rfl, rfl, rfl, rfl, rfl, rfl, fun _ => rfl, rfl, rfl, rfl⟩

/-- The directories of a link are on the disk as they are on its own. -/
theorem files_alone (h : Isolated (links configDir P K₀) s l own alone) {i : ι} {uid : UInt32}
    (hfresh : K₀.dirs (uidDir configDir uid) = false) (hnew : (alone i).dirs (uidDir configDir uid) = true) :
    uidDir configDir uid ∈ own i ∧ s.disk.files (uidDir configDir uid) = (alone i).files (uidDir configDir uid) := by
  have hown : uidDir configDir uid ∈ own i := by
    apply ((h.ownDirs i _).mp hnew).resolve_left
    change ¬ K₀.dirs _ = true
    rw [hfresh]
    exact Bool.false_ne_true
  exact ⟨hown, h.files i _ hown⟩

/-- The directories that links make are those of uids. -/
theorem dirs_pool (h : Isolated (links configDir P K₀) s l own alone) {dir : String} (hdir : s.disk.dirs dir = true) :
    K₀.dirs dir = true ∨ ∃ uid, dir = uidDir configDir uid := by
  rcases (h.dirs dir).mp hdir with hold | ⟨i, hi⟩
  · exact .inl hold
  · exact (((run_holds configDir (P i) K₀).run (h.run i)).always).dirs dir ((h.ownDirs i dir).mpr (.inr hi))

theorem reported_pool (h : Isolated (links configDir P K₀) s l own alone) {i : ι} {r : Report} (hr : s.progs i = .ret r) :
    Reported (P i) configDir K₀ s.disk r ∧ ∀ uid, r.uid = some uid → uidDir configDir uid ∈ own i := by
  have halone := ((run_holds configDir (P i) K₀).run (h.run i))
  rw [hr] at halone
  obtain ⟨_, halone⟩ := halone
  have hfiles : ∀ uid, r.uid = some uid → uidDir configDir uid ∈ own i ∧
      s.disk.files (uidDir configDir uid) = (alone i).files (uidDir configDir uid) := fun uid huid =>
    files_alone h (halone.fresh uid huid).1 (halone.fresh uid huid).2
  refine ⟨⟨halone.failed, ?_, halone.symbols, ?_⟩, fun uid huid => (hfiles uid huid).1⟩
  · intro uid huid
    exact ⟨(halone.fresh uid huid).1, (h.dirs _).mpr (.inr ⟨i, (hfiles uid huid).1⟩)⟩
  · intro m G hleft
    obtain ⟨uid, bw, M, huid, hmatch⟩ := halone.chopped m G hleft
    rw [← (hfiles uid huid).2] at hmatch
    exact ⟨uid, bw, M, huid, hmatch⟩

/-- Links that run at the same time keep apart, whatever the order of their steps,
whichever numbers they draw and whatever fails: what has been on the disk stays as it
is, no two get one uid, and a module is chopped only when its host module and symbol
table are complete in the directory of its uid. -/
theorem links_apart (hrun : (links configDir P K₀).run l = some s) :
    (∀ dir, K₀.dirs dir = true → s.disk.dirs dir = true ∧ s.disk.files dir = K₀.files dir) ∧
    (∀ i r, s.progs i = .ret r → Reported (P i) configDir K₀ s.disk r) ∧
    ∀ i j r r' uid, s.progs i = .ret r → s.progs j = .ret r' → r.uid = some uid → r'.uid = some uid → i = j := by
  obtain ⟨own, alone, h⟩ := isolated (fun i => run_tidy configDir) hrun
  refine ⟨?_, fun i r hr => (reported_pool h hr).1, ?_⟩
  · intro dir hdir
    refine ⟨(h.dirs dir).mpr (.inl hdir), h.others dir (fun i hi => ?_)⟩
    have hfresh := h.fresh i dir hi
    change K₀.dirs dir = false at hfresh
    rw [hdir] at hfresh
    cases hfresh
  · intro i j r r' uid hr hr' huid huid'
    exact h.apart i j _ ((reported_pool h hr).2 uid huid) ((reported_pool h hr').2 uid huid')

theorem rivals_apart : ∃ s m G bw M, (links "/c" (fun _ : Bool => soloLink) emptyDisk).run rivals = some s ∧
    s.progs true = .ret ⟨.chopped m G, some 7, some "fail to save '/c/guest/00000007/guest.ll': no space"⟩ ∧
    Matching soloLink 7 (s.disk.files (uidDir "/c" 7)) bw m M := by
  obtain ⟨s, m, G, _, _, _, hrun, hr, _⟩ := rivals_run
  obtain ⟨uid, bw, M, huid, hmatch, _⟩ := ((links_apart hrun).2.1 true _ hr).chopped m G rfl
  cases huid
  exact ⟨s, m, G, bw, M, hrun, hr, hmatch⟩

/-- At every moment, and so whenever the links are killed, a new directory in which the
host or the guest module is complete holds the lists and the symbol table that it was
made with. -/
theorem dirs_consistent (hrun : (links configDir P K₀).run l = some s) (uid : UInt32)
    (hfresh : K₀.dirs (uidDir configDir uid) = false) (hnew : s.disk.dirs (uidDir configDir uid) = true) :
    ∃ i, Consistent (P i) uid (s.disk.files (uidDir configDir uid)) := by
  obtain ⟨own, alone, h⟩ := isolated (fun i => run_tidy configDir) hrun
  obtain ⟨i, hi⟩ : ∃ i, uidDir configDir uid ∈ own i := by
    apply ((h.dirs _).mp hnew).resolve_left
    change ¬ K₀.dirs _ = true
    rw [hfresh]
    exact Bool.false_ne_true
  have hkept := ((run_holds configDir (P i) K₀).run (h.run i)).always
  have hcons := hkept.consistent uid hfresh ((h.ownDirs i _).mpr (.inr hi))
  rw [← h.files i _ hi] at hcons
  exact ⟨i, hcons⟩

theorem rivals_consistent : ∃ s bw m M, (links "/c" (fun _ : Bool => soloLink) emptyDisk).run rivals = some s ∧
    s.disk.dirs (uidDir "/c" 7) = true ∧ Matching soloLink 7 (s.disk.files (uidDir "/c" 7)) bw m M := by
  obtain ⟨s, _, _, _, M, _, hrun, _, _, hdir, hhost, _⟩ := rivals_run
  obtain ⟨i, h⟩ := dirs_consistent hrun 7 rfl hdir
  obtain ⟨bw, m, M, _, hmatch⟩ := h.host _ hhost
  exact ⟨s, bw, m, M, hrun, hdir, hmatch⟩

end Pools

end Comulator.LtoPass
