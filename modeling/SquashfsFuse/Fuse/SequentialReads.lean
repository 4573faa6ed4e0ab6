import SquashfsFuse.Fuse.MountedTrees

/-! Reading a file from its start to its end, among other requests. -/

namespace SquashfsFuse

/-! ## What is read from a handle -/

/-- The bytes that a request delivers from a handle. -/
def readBytes (fh : Nat) : FuseRequest × FuseReply → List Cell
  | (.read other _ _, .data _ out) => if other = fh then out else []
  | _ => []

def StartsAt (fh position : Nat) : FuseRequest → Prop
  | .read other offset _ => other = fh → offset = position
  | _ => True

/-- Each read from the handle starts behind the bytes that the reads before have delivered. -/
def ReadsOn (fh : Nat) : Nat → List (FuseRequest × FuseReply) → Prop
  | _, [] => True
  | position, exchange :: rest => StartsAt fh position exchange.1 ∧
      ReadsOn fh (position + (readBytes fh exchange).length) rest

/-- A read from the handle asks for bytes and gets none. -/
def FindsEnd (fh : Nat) : FuseRequest × FuseReply → Prop
  | (.read other _ size, .data _ out) => other = fh ∧ size ≠ 0 ∧ out = []
  | _ => False

section Reads

variable {store : ImageStore} {handles after : Nat → Option Nat} {fh ref position : Nat}
  {content : List UInt8} {request : FuseRequest} {reply : FuseReply}

private theorem fuseSpecification_keeps (opened : handles fh = some ref) (kept : request ≠ .release fh)
    (step : fuseSpecification store handles request = some (reply, after)) :
    after fh = some ref := by
  rcases fuseSpecification_eq_some step with ⟨meaning, answer, means, answered, -⟩
  apply FileStore.step_keeps opened _ answered
  rintro rfl
  cases request with
  | release other =>
      cases means
      exact kept rfl
  | getattr | readdir | openFile | read | readlink =>
      rcases Option.ite_none_right_eq_some.mp means with ⟨-, other⟩
      cases other
  | statfs | getxattr | listxattr => cases means

/-- A request that starts at the position delivers the next bytes of the file, or none. -/
theorem readBytes_of_step (opened : handles fh = some ref)
    (isFile : store.node ref = .file content)
    (step : fuseSpecification store handles request = some (reply, after))
    (starts : StartsAt fh position request) :
    ∃ size, readBytes fh (request, reply) = ((content.drop position).take size).map some ∧
      (FindsEnd fh (request, reply) → content.drop position = []) := by
  rcases fuseSpecification_eq_some step with ⟨meaning, answer, means, answered, rfl⟩
  cases request with
  | read other offset size =>
      rcases Option.ite_none_right_eq_some.mp means with ⟨allowed, means⟩
      cases means
      rw [FileStore.step] at answered
      by_cases same : other = fh
      · subst same
        obtain rfl := starts rfl
        simp only [opened, isFile] at answered
        cases answered
        refine ⟨size, if_pos rfl, ?_⟩
        rintro ⟨-, some_, nothing⟩
        rcases List.take_eq_nil_iff.mp (List.map_eq_nil_iff.mp nothing) with none | none
        · exact absurd none some_
        · exact none
      · refine ⟨0, ?_, ?_⟩
        · cases answer <;> first | rfl | exact if_neg same
        · cases answer <;> first | exact False.elim | exact fun finds => absurd finds.1 same
  | getattr | readdir | openFile | release | readlink | statfs | getxattr | listxattr =>
      exact ⟨0, rfl, False.elim⟩

/-- Reads that each start behind the one before deliver the file from a position on, in its
order and without a gap, and all of it once one of them finds the end. -/
theorem readBytes_of_run {last : Nat → Option Nat} {requests : List FuseRequest}
    {replies : List FuseReply} (opened : handles fh = some ref)
    (isFile : store.node ref = .file content) (kept : .release fh ∉ requests)
    (run : (fuseSpecification store).run handles requests = some (replies, last))
    (reads : ReadsOn fh position (requests.zip replies)) :
    (requests.zip replies).flatMap (readBytes fh) <+: (content.drop position).map some ∧
      ((∃ exchange ∈ requests.zip replies, FindsEnd fh exchange) →
        (requests.zip replies).flatMap (readBytes fh) = (content.drop position).map some) := by
  induction requests generalizing handles position replies with
  | nil => exact ⟨List.nil_prefix, fun finds => absurd finds (by simp)⟩
  | cons request requests induction =>
      rcases Specification.run_cons.mp run with ⟨reply, next, rest, step, behind, rfl⟩
      rcases reads with ⟨starts, others⟩
      rcases readBytes_of_step opened isFile step starts with ⟨size, bytes, ends⟩
      have stays := fuseSpecification_keeps opened
        (fun same => kept (same ▸ List.mem_cons_self)) step
      rcases induction stays (fun member => kept (List.mem_cons_of_mem _ member)) behind others with
        ⟨front, whole⟩
      have split : (content.drop position).map some =
          readBytes fh (request, reply) ++
            (content.drop (position + (readBytes fh (request, reply)).length)).map some := by
        have front := List.prefix_iff_eq_append.mp (List.take_prefix size (content.drop position))
        rw [bytes, List.length_map, ← List.map_append, ← List.drop_drop, front]
      rw [List.zip_cons_cons, List.flatMap_cons]
      constructor
      · rw [split]
        exact (List.prefix_append_right_inj _).mpr front
      · rintro ⟨exchange, member, finds⟩
        rcases List.mem_cons.mp member with rfl | later
        · rw [ends finds, List.map_nil] at split
          have nothing := List.append_eq_nil_iff.mp split.symm
          rw [nothing.2] at front
          rw [ends finds, nothing.1, List.prefix_nil.mp front]
          rfl
        · rw [split, whole ⟨exchange, later, finds⟩]

private theorem fuseSpecification_opens {path : List UInt8} {address : UInt64}
    (found : store.find (pathComponents path) = .ok ref) (isFile : store.node ref = .file content)
    (step : fuseSpecification store handles (.openFile path address fh) = some (reply, after)) :
    after fh = some ref := by
  rcases fuseSpecification_eq_some step with ⟨meaning, answer, means, answered, -⟩
  rcases Option.ite_none_right_eq_some.mp means with ⟨-, means⟩
  cases means
  rw [FileStore.step] at answered
  cases free : handles fh with
  | none =>
      simp only [free, found, isFile] at answered
      cases answered
      exact Function.update_self ..
  | some other =>
      simp only [free] at answered
      cases answered

end Reads

/-! ## Reading through a file -/

/-- Whoever opens a file of a tree on disk and reads on, each time behind the bytes that were
delivered before, gets the bytes of the file in their order and without a gap, and has all of
them once a read delivers none: whatever was requested before, and whatever else is requested
in between. -/
theorem fuseService_reads_through {sqfsCompressorCreate : Nat → Option Compressor}
    {image : Image} {cacheSizeMb : Nat} {mounted : MountedCtx}
    (initialised : initContext sqfsCompressorCreate image cacheSizeMb false = .ok mounted)
    {tree : DiskTree mounted.ctx.sb.blockSize} (stored : tree.Stored mounted.ctx)
    {path content : List UInt8} {address : UInt64} {fh ref : Nat} {before during : List FuseRequest}
    (found : (tree.store mounted.ctx).find (pathComponents path) = .ok ref)
    (isFile : (tree.store mounted.ctx).node ref = .file content)
    (kept : .release fh ∉ during) {replies : List FuseReply} {handles : Nat → Option Nat}
    (served : (fuseSpecification (tree.store mounted.ctx)).run (fun _ => none)
      (before ++ .openFile path address fh :: during) = some (replies, handles))
    (reads : ReadsOn fh 0 (during.zip (replies.drop (before.length + 1)))) :
    (fuseService mounted.ctx).Answers (.mounted mounted.caches.dataCache)
        (before ++ .openFile path address fh :: during) replies (fun _ => True) ∧
      (during.zip (replies.drop (before.length + 1))).flatMap (readBytes fh) <+:
        content.map some ∧
      ((∃ exchange ∈ during.zip (replies.drop (before.length + 1)), FindsEnd fh exchange) →
        (during.zip (replies.drop (before.length + 1))).flatMap (readBytes fh) =
          content.map some) := by
  refine ⟨(stored.stores.answers (initContext_mounts initialised).dataCache_with served).imp
    fun _ _ => trivial, ?_⟩
  rcases Specification.run_append.mp served with ⟨early, middle, behind, front, back, rfl⟩
  rcases Specification.run_cons.mp back with ⟨reply, after, late, step, rest, rfl⟩
  have opened := fuseSpecification_opens found isFile step
  have dropped : (early ++ reply :: late).drop (before.length + 1) = late := by
    rw [← Specification.run_length front, List.drop_append]
    simp
  rw [dropped] at reads ⊢
  exact readBytes_of_run opened isFile kept rest reads

/-- Read the file `a` to its end, and list the root meanwhile. -/
def namedFileReads : List FuseRequest :=
  [.read 1 0 2, .readdir [slash] 0, .read 1 2 2, .read 1 3 2]

def namedFileReplies : List FuseReply :=
  [.opened 1, .data 2 [some 97, some 98], .filled [⟨[0x61], 2, 0o100000⟩], .data 1 [some 99],
    .data 0 []]

theorem fuseService_reads_through_namedFile :
    (fuseService namedFileMounted.ctx).Answers (.mounted namedFileMounted.caches.dataCache)
        (.openFile [slash, 0x61] 0 1 :: namedFileReads) namedFileReplies (fun _ => True) ∧
      (namedFileReads.zip (namedFileReplies.drop 1)).flatMap (readBytes 1) =
        [some 97, some 98, some 99] := by
  have replied : ((fuseSpecification (mountedFileTree.store namedFileMounted.ctx)).run
      (fun _ => none) (.openFile [slash, 0x61] 0 1 :: namedFileReads)).map (·.1) =
        some namedFileReplies := by
    decide +kernel
  rcases Option.map_eq_some_iff.mp replied with ⟨⟨replies, handles⟩, served, rfl⟩
  have found : (mountedFileTree.store namedFileMounted.ctx).find
      (pathComponents [slash, 0x61]) = .ok 32 := rfl
  have reads : ReadsOn 1 0 (namedFileReads.zip (namedFileReplies.drop 1)) :=
    ⟨fun _ => rfl, trivial, fun _ => rfl, fun _ => rfl, trivial⟩
  have result := @fuseService_reads_through _ _ _ _ namedFile_mounted _ mountedFileTree_stored
    [slash, 0x61] _ 0 1 32 [] namedFileReads found rfl (by decide) namedFileReplies handles served
    reads
  have whole := result.2.2 ⟨(.read 1 3 2, .data 0 []), by decide, rfl, by decide, rfl⟩
  refine ⟨result.1, whole.trans ?_⟩
  decide +kernel

end SquashfsFuse
