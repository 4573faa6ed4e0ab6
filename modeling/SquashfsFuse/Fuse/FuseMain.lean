import SquashfsFuse.Core.Fragment

/-! Building the context of a mounted image (`fuse_main.c`). -/

namespace SquashfsFuse

/-! ## The ID table -/

/-- `load_id_table`. Of the metadata blocks of the table only the first is read; the
entries behind it keep what `malloc` left there. -/
def loadIdTable (image : Image) (sb : SqfsSuperblock) (comp : Compressor) :
    Sqfs (List (Option Nat)) :=
  let idCount := sb.disk.idCount
  if idCount = 0 then
    pure []
  else do
    let idPosTable ← sqfsPreadAll image (idCount * 8) sb.disk.idTable
    let firstBlockPos ← sqfsLe64ToCpu idPosTable 0
    let metaBlock ← sqfsMetaReadBlock image comp firstBlockPos
    let idsToCopy := if idCount * 4 < metaBlock.length then idCount else metaBlock.length / 4
    let copied ← (List.range idsToCopy).mapM fun i =>
      Outcome.ofOption (loadLe 4 metaBlock (i * 4))
    pure (copied.map some ++ List.replicate (idCount - idsToCopy) none)

/-! ## Caches -/

def cacheInodeMaxEntries : Nat := 1024

def cacheDirMaxEntries : Nat := 512

def cacheMetaMaxEntries : Nat := 256

def cacheDataMaxEntries : Nat := 128

/-- The caches of `sqfs_ctx_t`. Nothing is ever put into the first three, and the
values in them have no type of their own. -/
structure CtxCaches where
  inodeCache : SqfsCache Unit
  dirCache : SqfsCache Unit
  metaCache : SqfsCache Unit
  dataCache : SqfsCache BlockEntry

/-- The caches as `memset` leaves them. -/
def CtxCaches.zero : CtxCaches where
  inodeCache := .zero
  dirCache := .zero
  metaCache := .zero
  dataCache := .zero

/-- The calls of `sqfs_cache_init` in `init_context`. The initialisation of a cache
fails only for a limit of no entries. -/
def initCaches (cacheSizeMb : Nat) : Option CtxCaches := do
  let totalCache := u64 (cacheSizeMb * 1024 * 1024)
  let inodeCache ← sqfsCacheInit cacheInodeMaxEntries (totalCache / 8) true
  let dirCache ← sqfsCacheInit cacheDirMaxEntries (totalCache / 16) false
  let metaCache ← sqfsCacheInit cacheMetaMaxEntries (totalCache / 4) false
  let dataCache ← sqfsCacheInit cacheDataMaxEntries (totalCache / 2) true
  pure { inodeCache, dirCache, metaCache, dataCache }

/-- The part of `init_context` that initialises the caches, if they are not disabled. -/
def initContextCaches (cacheSizeMb : Nat) (noCache : Bool) : Sqfs CtxCaches :=
  if noCache then pure .zero else Outcome.ofOption (initCaches cacheSizeMb)

/-! ## The context -/

/-- `sqfs_ctx_t` as `init_context` leaves it. -/
structure MountedCtx where
  ctx : SqfsCtx
  caches : CtxCaches
  noCache : Bool

/-- The part of `init_context` that initialises and loads the fragment table. A table
that cannot be loaded stays behind empty. -/
def initFragmentTable (image : Image) (sb : SqfsSuperblock) (comp : Compressor) :
    Sqfs (Option SqfsFragmentTable) :=
  if sb.hasFragments then
    match sqfsFragmentTableLoad image sb comp with
    | .ok table => .ok (some table)
    | .err _ => .ok (some { entries := [], loaded := false })
    | .fault => .fault
  else
    pure none

/-- `init_context` on an open image. `sqfsCompressorCreate` stands for the function of
that name, which knows the libraries the program is built with. -/
def initContext (sqfsCompressorCreate : Nat → Option Compressor) (image : Image)
    (cacheSizeMb : Nat) (noCache : Bool) : Sqfs MountedCtx := do
  let sb ← sqfsSuperblockLoad image
  match sqfsCompressorCreate sb.disk.compressor with
  | none => .err .badComp
  | some comp => do
      let caches ← initContextCaches cacheSizeMb noCache
      let idTable ← loadIdTable image sb comp
      let fragmentTable ← initFragmentTable image sb comp
      pure {
        ctx := { image, sb, comp, idTable, fragmentTable, xattrTable := none }
        caches
        noCache }

structure Mounts (sqfsCompressorCreate : Nat → Option Compressor) (image : Image)
    (cacheSizeMb : Nat) (noCache : Bool) (mounted : MountedCtx) : Prop where
  onImage : mounted.ctx.image = image
  superblock : sqfsSuperblockLoad image = .ok mounted.ctx.sb
  compressor : sqfsCompressorCreate mounted.ctx.sb.disk.compressor = some mounted.ctx.comp
  caches : initContextCaches cacheSizeMb noCache = .ok mounted.caches
  idTable : loadIdTable image mounted.ctx.sb mounted.ctx.comp = .ok mounted.ctx.idTable
  fragmentTable : initFragmentTable image mounted.ctx.sb mounted.ctx.comp =
    .ok mounted.ctx.fragmentTable
  xattrTable : mounted.ctx.xattrTable = none
  noCache : mounted.noCache = noCache

theorem initContext_mounts {sqfsCompressorCreate : Nat → Option Compressor} {image : Image}
    {cacheSizeMb : Nat} {noCache : Bool} {mounted : MountedCtx}
    (initialised : initContext sqfsCompressorCreate image cacheSizeMb noCache = .ok mounted) :
    Mounts sqfsCompressorCreate image cacheSizeMb noCache mounted := by
  rcases Outcome.bind_eq_ok.mp initialised with ⟨sb, sbLoaded, initialised⟩
  cases created : sqfsCompressorCreate sb.disk.compressor with
  | none =>
      rw [created] at initialised
      cases initialised
  | some comp =>
      rw [created] at initialised
      rcases Outcome.bind_eq_ok.mp initialised with ⟨caches, cachesMade, initialised⟩
      rcases Outcome.bind_eq_ok.mp initialised with ⟨idTable, idsLoaded, initialised⟩
      rcases Outcome.bind_eq_ok.mp initialised with ⟨fragmentTable, fragmentsLoaded, built⟩
      cases built
      exact {
        onImage := rfl
        superblock := sbLoaded
        compressor := created
        caches := cachesMade
        idTable := idsLoaded
        fragmentTable := fragmentsLoaded
        xattrTable := rfl
        noCache := rfl }

end SquashfsFuse
