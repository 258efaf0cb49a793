import MbxCache.Digest
import MbxCache.Durable.Disk
import MbxCache.Storage

/-! The filesystem store (`storage/filesystem.rs`), step by step. -/

namespace MbxCache

open Durable

abbrev StorePath := List String

/-- `FilesystemStore::path` -/
def blobPath (digest : Digest) : Option StorePath :=
  if digest.validate then
    digest.algorithmKind.map fun algorithm =>
      ["blobs", algorithm.asStr, String.ofList (digest.hash.toList.take 2), digest.hash,
        toString digest.size]
  else none

/-- `NamedTempFile::new_in`, with the random part of the name. -/
def stagingPath (parent : StorePath) (random : String) : StorePath := parent ++ [".tmp" ++ random]

/-- What the surroundings decide at a step: if it fails, if it takes effect although it fails,
the name of a new temporary file, how many bytes go through, and if the temporary file of a
put that ends is removed. -/
structure Io where
  fails : Bool
  effective : Bool
  random : String
  cut : Nat
  removed : Bool
  deriving DecidableEq, Repr

/-- Where a put is. From `opening` on it has a temporary file, and from `copying` on a second
handle on it. -/
inductive PutStage
  | checking
  | makingDirs
  | creating
  | opening (staging : StorePath) (inode : Nat)
  | copying (staging : StorePath) (inode handle : Nat) (rest : Bytes)
  | syncing (staging : StorePath) (inode : Nat)
  | publishing (staging : StorePath) (inode : Nat)
  | answered (outcome : PutOutcome)
  | failed
  deriving DecidableEq, Repr

structure PutCall where
  digest : Digest
  source : Bytes
  stage : PutStage
  deriving DecidableEq, Repr

inductive GetStage
  | opening
  | sizing (inode : Nat)
  | reading (inode size : Nat) (collected : Bytes)
  | served (size : Nat) (content : Bytes)
  | absent
  | failed
  deriving DecidableEq, Repr

structure GetCall where
  digest : Digest
  stage : GetStage
  deriving DecidableEq, Repr

structure FileTree where
  disk : Disk StorePath UInt8
  dirs : StorePath → Bool

namespace FileTree

def withDisk (tree : FileTree) (disk : Disk StorePath UInt8) : FileTree := { tree with disk }

/-- The end of a put drops its temporary file. -/
def drop (tree : FileTree) (staging : StorePath) (io : Io) : FileTree :=
  if io.removed then tree.withDisk (tree.disk.remove staging) else tree

end FileTree

namespace PutStage

def own : PutStage → Option (StorePath × Nat)
  | .opening staging inode | .copying staging inode _ _ | .syncing staging inode
  | .publishing staging inode => some (staging, inode)
  | .checking | .makingDirs | .creating | .answered _ | .failed => none

/-- One step of `FilesystemStore::put`. -/
def advance (source : Bytes) (destination : StorePath) (io : Io) (tree : FileTree) :
    PutStage → FileTree × PutStage
  | .checking =>
      if io.fails then (tree, .failed)
      else if (tree.disk.names destination).isSome then (tree, .answered .alreadyExists)
      else (tree, .makingDirs)
  | .makingDirs =>
      let made := { tree with dirs := Function.update tree.dirs destination.dropLast true }
      if io.fails then (if io.effective then made else tree, .failed) else (made, .creating)
  | .creating =>
      let staging := stagingPath destination.dropLast io.random
      if (io.fails && !io.effective) || !tree.dirs destination.dropLast then (tree, .failed)
      else
        match tree.disk.create staging with
        -- A name that is taken is tried again with another.
        | none => (tree, .creating)
        | some (disk, inode) =>
            if io.fails then ((tree.withDisk disk).drop staging io, .failed)
            else (tree.withDisk disk, .opening staging inode)
  | .opening staging inode =>
      if io.fails then (tree.drop staging io, .failed)
      else
        let (disk, handle) := tree.disk.overwrite staging
        (tree.withDisk disk, .copying staging inode handle source)
  | .copying staging inode handle rest =>
      let written := tree.withDisk (tree.disk.append handle (rest.take io.cut))
      if io.fails then (written.drop staging io, .failed)
      else if rest = [] then (tree, .syncing staging inode)
      else (written, .copying staging inode handle (rest.drop io.cut))
  | .syncing staging inode =>
      let synced := tree.withDisk (tree.disk.sync inode)
      if io.fails then ((if io.effective then synced else tree).drop staging io, .failed)
      else (synced, .publishing staging inode)
  | .publishing staging _ =>
      if io.fails && !io.effective then (tree.drop staging io, .failed)
      else
        match tree.disk.rename staging destination with
        | .ok disk => (tree.withDisk disk, if io.fails then .failed else .answered .created)
        | .error .taken =>
            (tree.drop staging io, if io.fails then .failed else .answered .alreadyExists)
        | .error .missing => (tree.drop staging io, .failed)
  | .answered outcome => (tree, .answered outcome)
  | .failed => (tree, .failed)

end PutStage

/-- One step of `FilesystemStore::get` and of reading the stream it returns. -/
def GetStage.advance (destination : StorePath) (io : Io) (disk : Disk StorePath UInt8) :
    GetStage → GetStage
  | .opening =>
      if io.fails then .failed
      else
        match disk.names destination with
        | none => .absent
        | some inode => .sizing inode
  | .sizing inode =>
      if io.fails then .failed else .reading inode (disk.files inode).volatile.length []
  | .reading inode size collected =>
      let piece := ((disk.files inode).volatile.drop collected.length).take io.cut
      if io.fails then .failed
      else if io.cut ≠ 0 ∧ piece = [] then .served size collected
      else .reading inode size (collected ++ piece)
  | .served size content => .served size content
  | .absent => .absent
  | .failed => .failed

structure FileStore where
  tree : FileTree
  puts : List PutCall
  gets : List GetCall
  given : List (Digest × Bytes)

inductive FileMove
  | beginPut (digest : Digest) (source : Bytes)
  | beginGet (digest : Digest)
  | put (index : Nat) (io : Io)
  | get (index : Nat) (io : Io)
  | settle (path : StorePath)
  | crash (lost : StorePath → Bool)

def temporary (path : StorePath) : Bool :=
  path.getLast?.any fun name => ".tmp".toList.isPrefixOf name.toList

namespace FileStore

/-- `FilesystemStore::new` on an empty disk. -/
def start : FileStore := ⟨⟨Disk.empty, fun path => path = ["blobs"]⟩, [], [], []⟩

def putStep (store : FileStore) (index : Nat) (call : PutCall) (io : Io) : FileStore :=
  match blobPath call.digest with
  | none => { store with puts := store.puts.set index { call with stage := .failed } }
  | some destination =>
      let (tree, stage) := call.stage.advance call.source destination io store.tree
      { store with tree := tree, puts := store.puts.set index { call with stage } }

def getStep (store : FileStore) (index : Nat) (call : GetCall) (io : Io) : FileStore :=
  let stage := match blobPath call.digest with
    | none => .failed
    | some destination => call.stage.advance destination io store.tree.disk
  { store with gets := store.gets.set index { call with stage } }

def step (store : FileStore) : FileMove → FileStore
  | .beginPut digest source =>
      { store with
        puts := store.puts ++ [⟨digest, source, .checking⟩]
        given := store.given ++ [(digest, source)] }
  | .beginGet digest => { store with gets := store.gets ++ [⟨digest, .opening⟩] }
  | .put index io =>
      match store.puts[index]? with
      | some call => store.putStep index call io
      | none => store
  | .get index io =>
      match store.gets[index]? with
      | some call => store.getStep index call io
      | none => store
  | .settle path => { store with tree := store.tree.withDisk (store.tree.disk.settle path) }
  | .crash lost =>
      { store with
        tree := ⟨store.tree.disk.crash fun path => temporary path && lost path,
          fun path => store.tree.dirs path && !lost path⟩
        puts := []
        gets := [] }

def run (store : FileStore) (moves : List FileMove) : FileStore := moves.foldl step store

end FileStore
end MbxCache
