import FileHub.Api.Sql

/-!
# MySQL behind the text

The handlers send text, and their strings are spliced into it unescaped. The
server does what a statement says if it reads the text as the template means
it; `tokens` is how it reads. Any other text is another statement, and what it
makes of that is up to the server.

Comparing strings is up to the server too: the columns are `utf8` with no
collation named, so two different strings may count as the same. `same` is its
comparison. Where it confuses two of the strings that a statement brings and
the tables hold, nothing is said about the statement's effect.

`SqlServer.step` is `step` with the statements sent to such a server. Besides,
a statement, or a transfer to FastDFS, may take effect although the call
reports a failure; `Call.Regular` excludes that, and it says of the clock and
of FastDFS that the texts they give can stand between quotes.
-/

namespace FileHub

open Lib
open Lib.Sql

/-! ## The text of a statement

Where several places send one statement, their texts differ in blanks and in
the columns they ask for; the text is that of one of them. -/

def Select.place : Select → SqlCmd
  | .userFile user md5 filename => .md5Exists user md5 filename
  | .fileInfo md5 => .deleteCount md5
  | .share md5 filename => .shareExists md5 filename
  | .shareByPv => .shareByPv
  | .shareCount => .shareCount
  | .shareList start count => .shareList start count
  | .picture urlmd5 => .browsePicture urlmd5
  | .pictureCount user => .pictureCount user
  | .pictureList user start count => .pictureList user start count
  | .password user_name => .password user_name
  | .userId user_name => .userId user_name
  | .userFilesCount user => .userFilesCount user
  | .userFiles user start count => .userFiles user start count

/-- The registration is prepared, and prints nothing. -/
def Dml.place : Dml → Option SqlCmd
  | .insertUserFile r => some (.storeInsert r.user r.md5 r.createTime r.fileName)
  | .deleteUserFile user md5 filename => some (.deleteUserFile user md5 filename)
  | .setSharedStatus v user md5 filename =>
      some (if v = 0 then .cancelStatus user md5 filename else .shareStatus user md5 filename)
  | .setUserFilePv v user md5 filename => some (.ownPvUpdate v user md5 filename)
  | .insertFileInfo r => some (.storeInfo r.md5 r.fileId r.url r.size r.type)
  | .incrCount md5 => some (.storeCount md5)
  | .decrCount md5 => some (.deleteDecr md5)
  | .deleteFileInfo md5 => some (.deleteInfo md5)
  | .insertShare r => some (.shareInsert r.user r.md5 r.createTime r.fileName)
  | .deleteShare user md5 filename => some (.deleteShare user md5 filename)
  | .setSharePv v md5 filename => some (.sharePvUpdate v md5 filename)
  | .insertPicture r =>
      some (.pictureInsert r.user r.filemd5 r.fileName r.urlmd5 r.key r.createTime)
  | .incrPicturePv urlmd5 => some (.browsePv urlmd5)
  | .deletePicture user urlmd5 => some (.pictureDelete user urlmd5)
  | .insertUser _ => none

def Dml.text (d : Dml) : Bytes := (d.place.map SqlCmd.text).getD []

/-- The text is printed for this statement, and read as its template means it. -/
def SqlCmd.ReadAs (cmd : SqlCmd) (c : Call) : Prop :=
  cmd.call = c ∧ tokens cmd.text = some (meant cmd.template)

instance (cmd : SqlCmd) (c : Call) : Decidable (cmd.ReadAs c) :=
  inferInstanceAs (Decidable (_ ∧ _))

def Select.Read (q : Select) : Prop := q.place.ReadAs (.select q)

instance : DecidablePred Select.Read := fun q => inferInstanceAs (Decidable (q.place.ReadAs _))

def Dml.Read (d : Dml) : Prop := ∀ cmd ∈ d.place, cmd.ReadAs (.dml d)

instance : DecidablePred Dml.Read := fun d =>
  match h : d.place with
  | none => .isTrue fun cmd hcmd => by rw [h] at hcmd; cases hcmd
  | some cmd => decidable_of_iff (cmd.ReadAs (.dml d))
      ⟨fun hread cmd' hcmd => by rw [h] at hcmd; cases hcmd; exact hread,
        fun hall => hall cmd h⟩

/-! ## The strings that are compared -/

def Select.names : Select → List Bytes
  | .userFile user md5 filename => [user, md5, filename]
  | .fileInfo md5 => [md5]
  | .share md5 filename => [md5, filename]
  | .picture urlmd5 => [urlmd5]
  | .pictureCount user | .pictureList user _ _ | .password user | .userId user
  | .userFilesCount user | .userFiles user _ _ => [user]
  | .shareByPv | .shareCount | .shareList _ _ => []

def Dml.names : Dml → List Bytes
  | .insertUserFile r => [r.user, r.md5, r.fileName]
  | .deleteUserFile user md5 filename | .setSharedStatus _ user md5 filename
  | .setUserFilePv _ user md5 filename | .deleteShare user md5 filename => [user, md5, filename]
  | .insertFileInfo r => [r.md5]
  | .incrCount md5 | .decrCount md5 | .deleteFileInfo md5 => [md5]
  | .insertShare r => [r.user, r.md5, r.fileName]
  | .setSharePv _ md5 filename => [md5, filename]
  | .insertPicture r => [r.user, r.filemd5, r.fileName, r.urlmd5]
  | .incrPicturePv urlmd5 => [urlmd5]
  | .deletePicture user urlmd5 => [user, urlmd5]
  | .insertUser r => [r.userName, r.nickName]

/-- The other strings a statement prints. -/
def Dml.values : Dml → List Bytes
  | .insertUserFile r => [r.createTime]
  | .insertFileInfo r => [r.fileId, r.url, r.type]
  | .insertShare r => [r.createTime]
  | .insertPicture r => [r.key, r.createTime]
  | _ => []

def Db.names (db : Db) : List Bytes :=
  (db.userFileList.rows.flatMap fun r => [r.user, r.md5, r.fileName]) ++
    db.fileInfo.rows.map FileInfoRow.md5 ++
    (db.shareFileList.flatMap fun r => [r.user, r.md5, r.fileName]) ++
    (db.sharePictureList.flatMap fun r => [r.user, r.filemd5, r.fileName, r.urlmd5]) ++
    db.userInfo.flatMap fun r => [r.userName, r.nickName]

/-! ## The server -/

/-- What a server decides where the statement does not. -/
structure SqlServer where
  /-- The comparison of two strings. -/
  same : Bytes → Bytes → Bool
  /-- Any other text: the result set, read by the columns that were asked for. -/
  query : Bytes → Db → (q : Select) → Option (List q.Row)
  update : Bytes → Db → Option (ℕ × Db)
  /-- A prepared registration with a name that is confused with another. -/
  register : UserRow → Db → Option (ℕ × Db)

namespace SqlServer

variable (server : SqlServer)

/-- No two of these strings are confused. -/
def TellsApart (names : List Bytes) : Prop :=
  ∀ a ∈ names, ∀ b ∈ names, server.same a b = true → a = b

instance (names : List Bytes) : Decidable (server.TellsApart names) :=
  inferInstanceAs (Decidable (∀ a ∈ names, ∀ b ∈ names, _ → _))

def select (q : Select) (db : Db) : Option (List q.Row) :=
  if q.Read ∧ server.TellsApart (q.names ++ db.names) then q.run db
  else server.query q.place.text db q

def exec (d : Dml) (db : Db) : Option (ℕ × Db) :=
  if d.Read ∧ server.TellsApart (d.names ++ db.names) then d.format.exec db
  else match d with
    | .insertUser r => server.register r db
    | d => server.update d.text db

/-- Answer a call. A statement or a transfer whose answer is lost has taken effect. -/
def step (c : Call) (a : Ans) (w : World) : Option (Resp c × World) :=
  match c with
  | .select q => some (if a.ok then server.select q w.db else none, w)
  | .dml d =>
      if a.ok then
        match server.exec d w.db with
        | none => some (none, w)
        | some (n, db) => some (some n, { w with db })
      else if a.fault = .lost then
        some (none, { w with db := ((server.exec d w.db).map Prod.snd).getD w.db })
      else some (none, w)
  | .fdfsUpload path =>
      if a.fault = .lost then
        some (none, { w with fdfs := w.fdfs.store (w.fdfs.freshId (cStr a.text)) })
      else FileHub.step (.fdfsUpload path) a w
  | .fdfsDelete id =>
      if a.fault = .lost then some (false, { w with fdfs := w.fdfs.remove id })
      else FileHub.step (.fdfsDelete id) a w
  | c => FileHub.step c a w

/-- Run a handler alone from `w`, with the statements sent to the server. -/
abbrev runIn (ω : ℕ → Ans) {α : Type} (p : Handler α) (w : World) :
    Prog.Outcome World Ans α :=
  p.exec server.step ω w

end SqlServer

/-- What is reported as failed did not happen, and the texts of the clock and of
FastDFS mean nothing special between quotes. -/
def Call.Regular (c : Call) (a : Ans) : Prop :=
  match c with
  | .dml _ | .fdfsDelete _ => a.fault ≠ .lost
  | .fdfsUpload _ => a.fault ≠ .lost ∧ Plain (cStr a.text)
  | .localtime => Plain a.text
  | _ => True

instance : ∀ (c : Call) (a : Ans), Decidable (c.Regular a)
  | .dml _, a | .fdfsDelete _, a => inferInstanceAs (Decidable (a.fault ≠ .lost))
  | .fdfsUpload _, _ => inferInstanceAs (Decidable (_ ∧ _))
  | .localtime, a => inferInstanceAs (Decidable (Plain a.text))
  | .getDBConn _, _ | .select _, _ | .stmtInit, _ | .getCacheConn _, _ | .cacheInit, _
  | .redis _, _ | .tryLockFor _, _ | .unlock, _ | .rename .., _ | .unlink _, _
  | .fdfsFileInfo _, _ | .time, _ | .uuid, _ | .rand, _ | .crash, _ => .isTrue trivial

/-- Every call of the run is regular. -/
def SqlServer.Regular (server : SqlServer) (ω : ℕ → Ans) {α : Type} (p : Handler α)
    (w : World) : Prop :=
  ∀ m ∈ Prog.trace server.step ω p w, m.1.Regular m.2

instance (server : SqlServer) (ω : ℕ → Ans) {α : Type} (p : Handler α) (w : World) :
    Decidable (server.Regular ω p w) :=
  inferInstanceAs (Decidable (∀ m ∈ Prog.trace server.step ω p w, _))

/-- A guard that also asks for regular answers. -/
def Regularly (G : Call → Ans → World → Prop) (c : Call) (a : Ans) (w : World) : Prop :=
  G c a w ∧ c.Regular a

instance (G : Call → Ans → World → Prop) [∀ c a w, Decidable (G c a w)] (c : Call) (a : Ans)
    (w : World) : Decidable (Regularly G c a w) :=
  inferInstanceAs (Decidable (_ ∧ _))

/-- A server that compares bytes and refuses any statement it reads otherwise
than the template means. -/
def SqlServer.strict : SqlServer where
  same := fun a b => a == b
  query := fun _ _ _ => none
  update := fun _ _ => none
  register := fun _ _ => none

end FileHub
