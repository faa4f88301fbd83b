import Golos.Plugins.Impl.Database

/-!
This module contains the custom operations of the plugin `follow`.
-/

namespace Golos

open Checked

structure FollowOperation where
  follower : AccountName
  following : AccountName
  what : List String

structure ReblogOperation where
  account : AccountName
  author : AccountName
  permlink : String
  title : String := ""
  body : String := ""
  jsonMetadata : String := ""

structure DeleteReblogOperation where
  account : AccountName
  author : AccountName
  permlink : String

inductive FollowPluginOperation where
  | follow (o : FollowOperation)
  | reblog (o : ReblogOperation)
  | deleteReblog (o : DeleteReblogOperation)

/-- The accounts that the operations of the plugin require the posting authority of. -/
def FollowPluginOperation.requiredPosting : FollowPluginOperation → List AccountName
  | .follow o => [o.follower]
  | .reblog o => [o.account]
  | .deleteReblog o => [o.account]

section validate

variable {Json : Type} (fc : Fc Json)

def steemitMaxPermlinkLength : Nat := 256

def validatePermlink (permlink : String) : Result Unit := do
  ensure (permlink.utf8ByteSize < steemitMaxPermlinkLength) (.invalidValue "permlink is too long")
  ensure (fc.isUtf8 permlink = true) (.invalidValue "permlink not formatted in UTF8")

def FollowOperation.validate (o : FollowOperation) : Result Unit :=
  ensure (o.follower ≠ o.following) (.logicException "You cannot follow yourself")

def ReblogOperation.validate (o : ReblogOperation) : Result Unit := do
  ensure (o.account ≠ o.author) (.logicException "You cannot reblog your own content")
  validatePermlink fc o.permlink
  let texts := o.title ≠ "" ∨ o.body ≠ "" ∨ o.jsonMetadata ≠ ""
  ensure (texts → o.title.utf8ByteSize < 256) (.invalidValue "Title larger than size limit")
  ensure (texts → fc.isUtf8 o.title = true) (.invalidValue "Title not formatted in UTF8")
  ensure (texts → o.body ≠ "")
    (.invalidValue "Body is empty but Title or JSON Metadata is set")
  ensure (texts → fc.isUtf8 o.body = true) (.invalidValue "Body not formatted in UTF8")
  ensure (o.jsonMetadata ≠ "" → fc.isValid o.jsonMetadata = true)
    (.invalidValue "JSON Metadata not valid JSON")

def DeleteReblogOperation.validate (o : DeleteReblogOperation) : Result Unit := do
  ensure (o.account ≠ o.author) (.logicException "You cannot delete reblog of your own content")
  validatePermlink fc o.permlink

/-- `operation_validate` -/
def FollowPluginOperation.validate : FollowPluginOperation → Result Unit
  | .follow o => o.validate
  | .reblog o => o.validate fc
  | .deleteReblog o => o.validate fc

end validate

/-- `1 << blog` -/
def followBlog : UInt16 := 2

/-- `1 << ignore` -/
def followIgnore : UInt16 := 4

structure FollowObject where
  follower : AccountName
  following : AccountName
  what : UInt16

abbrev FollowObject.byFollowerFollowing (o : FollowObject) : AccountName × AccountName :=
  (o.follower, o.following)

def FollowObject.isBlog (o : FollowObject) : Bool :=
  o.what &&& followBlog ≠ 0

structure FollowCountObject where
  account : AccountName
  followerCount : UInt32 := 0
  followingCount : UInt32 := 0

structure BlogObject where
  account : AccountName
  comment : Nat
  rebloggedOn : Nat
  blogFeedId : UInt32
  reblogTitle : String
  reblogBody : String
  reblogJsonMetadata : String

abbrev BlogObject.byComment (o : BlogObject) : Nat × AccountName :=
  (o.comment, o.account)

structure BlogAuthorStatsObject where
  blogger : AccountName
  guest : AccountName
  count : UInt32

abbrev BlogAuthorStatsObject.byBloggerGuestCount (o : BlogAuthorStatsObject) :
    AccountName × AccountName × UInt32 :=
  (o.blogger, o.guest, o.count)

structure FeedObject where
  account : AccountName
  comment : Nat
  rebloggedBy : List AccountName
  firstRebloggedBy : AccountName
  firstRebloggedOn : Nat
  reblogs : UInt32
  accountFeedId : UInt32

abbrev FeedObject.byComment (o : FeedObject) : Nat × AccountName :=
  (o.comment, o.account)

/-- The settings of an account: whom it blocks, and whether it is not to be bothered. -/
inductive AccountSetting where
  | accountBlock (account : AccountName) (block : Bool)
  | doNotBother (doNotBother : Bool)

structure AccountSetupOperation where
  account : AccountName
  settings : List AccountSetting

namespace ChainDatabase

variable {W : Type} (db : ChainDatabase W)

def applySetting (name : AccountName) : AccountSetting → Result (ChainDatabase W)
  | .accountBlock account block => do
    ensure (name ≠ account) (.invalidValue "Cannot block yourself")
    let _ ← db.getAccount account
    if (name, account) ∈ db.accountBlockings then
      ensure (block = false) (.invalidValue "You are already blocked this person")
      pure { db with accountBlockings := db.accountBlockings.erase (name, account) }
    else
      ensure (block = true) (.invalidValue "You are already not blocking this person")
      pure { db with accountBlockings := db.accountBlockings ++ [(name, account)] }
  | .doNotBother doNotBother => do
    ensure (db.doNotBother name ≠ doNotBother) (.invalidValue "do_not_bother is same")
    pure { db with
      doNotBother := fun other => if other = name then doNotBother else db.doNotBother other }

/-- `account_setup_evaluator` -/
def accountSetup (o : AccountSetupOperation) : Result (ChainDatabase W) := do
  db.assertReqHf 27 "account_setup_operation"
  let _ ← db.getAccount o.account
  o.settings.foldlM (fun db s => db.applySetting o.account s) db

end ChainDatabase

structure FollowDatabase (W : Type) where
  chain : ChainDatabase W
  follows : Table FollowObject.byFollowerFollowing := .empty
  followCounts : Table FollowCountObject.account := .empty
  blogs : Table BlogObject.byComment := .empty
  blogAuthorStats : Table BlogAuthorStatsObject.byBloggerGuestCount := .empty
  feeds : Table FeedObject.byComment := .empty

namespace FollowDatabase

variable {W Json : Type} (fc : Fc Json) (db : FollowDatabase W)

/-- The row of an account and an author that the index holds first, the one with the largest count. -/
def findBlogStats (blogger guest : AccountName) : Option BlogAuthorStatsObject :=
  (db.blogAuthorStats.rows.filter fun s => s.blogger = blogger ∧ s.guest = guest).foldl
    (fun best s =>
      match best with
      | none => some s
      | some b => if b.count < s.count then some s else some b)
    none

/-- `save_blog_stats`; the changed row is put back under its new key. -/
def saveBlogStats (blogger guest : AccountName) (startCount : UInt32) : Result (FollowDatabase W) :=
  match db.findBlogStats blogger guest with
  | some s => do
    let count := if startCount > 0 then s.count + 1 else s.count - 1
    let stats ← get ((db.blogAuthorStats.erase s.byBloggerGuestCount).emplace
      { s with count := count }) .uniquenessViolated
    pure { db with blogAuthorStats := stats }
  | none => do
    let stats ← get (db.blogAuthorStats.emplace ⟨blogger, guest, startCount⟩) .uniquenessViolated
    pure { db with blogAuthorStats := stats }

/-- The bits of `what` that the names in the operation stand for. -/
def followWhat (what : List String) : UInt16 :=
  what.foldl
    (fun bits target =>
      if target = "blog" then bits ||| followBlog
      else if target = "ignore" then bits ||| followIgnore
      else bits)
    0

/-- The update of the counters of one side. -/
def countFollow (account : AccountName) (f : FollowCountObject → FollowCountObject)
    (first : FollowCountObject → FollowCountObject)
    (hf : autoParam (∀ o, (f o).account = o.account) Monoid.npow_zero._autoParam) :
    Result (FollowDatabase W) :=
  match db.followCounts.find? account with
  | none => do
    let counts ← get (db.followCounts.emplace (first { account := account })) .uniquenessViolated
    pure { db with followCounts := counts }
  | some _ => pure { db with followCounts := db.followCounts.modify account f hf }

def bump (was becomes : Bool) (count : UInt32) : UInt32 :=
  (count - if was then 1 else 0) + if becomes then 1 else 0

def setFollow (o : FollowOperation) (what : UInt16) : Result (FollowDatabase W) :=
  match db.follows.find? (o.follower, o.following) with
  | none => do
    let follows ← get (db.follows.emplace ⟨o.follower, o.following, what⟩) .uniquenessViolated
    pure { db with follows := follows }
  | some _ =>
    pure
      { db with
        follows := db.follows.modify (o.follower, o.following) fun f => { f with what := what } }

/-- The checks of a follower who is to see the blog. -/
def checkFollow (o : FollowOperation) (isFollowing : Bool) : Result Unit :=
  if isFollowing then do
    let blocked ← db.chain.isBlocking o.follower o.following
    ensure (blocked ≠ 1) (.invalidValue "You cannot follow because you was blocked user")
    let blocking ← db.chain.isBlocking o.following o.follower
    ensure (blocking ≠ 1) (.invalidValue "You cannot follow because you are blocked by user")
  else
    pure ()

def follow (o : FollowOperation) : Result (FollowDatabase W) := do
  let what := followWhat o.what
  let isFollowing : Bool := what &&& followBlog ≠ 0
  let wasFollowed := (db.follows.find? (o.follower, o.following)).any FollowObject.isBlog
  let ignored := what &&& followIgnore ≠ 0
  ensure (ignored → ¬db.chain.hasHardfork 27)
    (.invalidValue "Follow ignore list is deprecated now, use account_setup")
  ensure (ignored → isFollowing = false)
    (.logicException "Cannot follow blog and ignore author at the same time")
  db.checkFollow o isFollowing
  let db ← db.setFollow o what
  let db ← db.countFollow o.follower
    (fun c => { c with followingCount := bump wasFollowed isFollowing c.followingCount })
    fun c => { c with followingCount := bump false isFollowing 0 }
  db.countFollow o.following
    (fun c => { c with followerCount := bump wasFollowed isFollowing c.followerCount })
    fun c => { c with followerCount := bump false isFollowing 0 }

/-- The number after the largest of an account's. -/
def nextId (ids : List UInt32) : UInt32 :=
  match ids with
  | [] => 0
  | id :: ids => ids.foldl max id + 1

/-- The followers of an account who follow its blog. -/
def blogFollowers (account : AccountName) : List FollowObject :=
  db.follows.rows.filter fun f => f.following = account ∧ f.isBlog = true

/-- The turn of the loop of `reblog_evaluator` for one follower. -/
def feedReblog (maxFeedSize : UInt32) (o : ReblogOperation) (comment : Nat) (f : FollowObject) :
    Result (FollowDatabase W) := do
  let feedIds := (db.feeds.rows.filter fun x => x.account = f.follower).map (·.accountFeedId)
  let next := nextId feedIds
  let feeds ← match db.feeds.find? (comment, f.follower) with
    | none => do
      ensure (next ∉ feedIds) .uniquenessViolated
      get (db.feeds.emplace
        { account := f.follower
          comment := comment
          rebloggedBy := [o.account]
          firstRebloggedBy := o.account
          firstRebloggedOn := db.chain.headBlockTime
          reblogs := 1
          accountFeedId := next }) .uniquenessViolated
    | some _ =>
      pure (db.feeds.modify (comment, f.follower) fun x =>
        { x with rebloggedBy := x.rebloggedBy ++ [o.account], reblogs := x.reblogs + 1 })
  pure
    { db with
      feeds := feeds.filter fun x =>
        ¬(x.account = f.follower ∧ next - x.accountFeedId > maxFeedSize) }

def reblog (maxFeedSize : UInt32) (o : ReblogOperation) : Result (FollowDatabase W) := do
  let c ← db.chain.getCommentByPerm fc o.author o.permlink
  ensure (c.parentAuthor = "") (.logicException "Only top level posts can be reblogged")
  let blogIds := (db.blogs.rows.filter fun b => b.account = o.account).map (·.blogFeedId)
  ensure (db.blogs.find? (c.id, o.account)).isNone
    (.logicException "Account has already reblogged this post")
  ensure (nextId blogIds ∉ blogIds) .uniquenessViolated
  let blogs ← get (db.blogs.emplace
      { account := o.account
        comment := c.id
        rebloggedOn := db.chain.headBlockTime
        blogFeedId := nextId blogIds
        reblogTitle := o.title
        reblogBody := o.body
        reblogJsonMetadata := o.jsonMetadata })
    .uniquenessViolated
  let db ← { db with blogs := blogs }.saveBlogStats o.account c.author 1
  (db.blogFollowers o.account).foldlM (fun db f => db.feedReblog maxFeedSize o c.id f) db

/-- The turn of the loop of `delete_reblog_evaluator` for one follower. -/
def unfeedReblog (account : AccountName) (comment : Nat) (f : FollowObject) : FollowDatabase W :=
  match db.feeds.find? (comment, f.follower) with
  | none => db
  | some feed =>
    if account ∉ feed.rebloggedBy then
      db
    else if feed.reblogs ≤ 1 then
      { db with feeds := db.feeds.erase (comment, f.follower) }
    else
      { db with
        feeds := db.feeds.modify (comment, f.follower) fun x =>
          { x with rebloggedBy := x.rebloggedBy.erase account, reblogs := x.reblogs - 1 } }

def deleteReblog (o : DeleteReblogOperation) : Result (FollowDatabase W) := do
  let c ← db.chain.getCommentByPerm fc o.author o.permlink
  ensure (db.blogs.find? (c.id, o.account)).isSome
    (.logicException "Account has not reblogged this post")
  let db ← { db with blogs := db.blogs.erase (c.id, o.account) }.saveBlogStats o.account c.author 0
  pure ((db.blogFollowers o.account).foldl (fun db f => db.unfeedReblog o.account c.id f) db)

/-- Remove what the follower follows, and say whether that was the blog. -/
def unfollow (follower following : AccountName) : FollowDatabase W × Bool :=
  match db.follows.find? (follower, following) with
  | some f =>
    if f.isBlog then
      ({ db with follows := db.follows.erase (follower, following) }, true)
    else
      (db, false)
  | none => (db, false)

/-- The visitor of the plugin for an account that `blocker` blocks. -/
def onBlock (blocker account : AccountName) : FollowDatabase W :=
  let (db, blockingWas) := db.unfollow account blocker
  let (db, blockerWas) := db.unfollow blocker account
  let counts := db.followCounts.modify account fun f =>
    { f with
      followingCount := bump blockingWas false f.followingCount
      followerCount := bump blockerWas false f.followerCount }
  let counts := counts.modify blocker fun f =>
    { f with
      followerCount := bump blockingWas false f.followerCount
      followingCount := bump blockerWas false f.followingCount }
  { db with followCounts := counts }

def onSetting (account : AccountName) : AccountSetting → FollowDatabase W
  | .accountBlock blocked block => if block then db.onBlock account blocked else db
  | .doNotBother _ => db

/-- What the plugin does after an `account_setup_operation`. -/
def postAccountSetup (o : AccountSetupOperation) : FollowDatabase W :=
  o.settings.foldl (fun db s => db.onSetting o.account s) db

/-- The evaluator of the chain and then the visitor of the plugin. -/
def accountSetup (o : AccountSetupOperation) : Result (FollowDatabase W) := do
  let chain ← db.chain.accountSetup o
  pure ({ db with chain := chain }.postAccountSetup o)

/-- The evaluators of the plugin. -/
def apply (maxFeedSize : UInt32) : FollowPluginOperation → Result (FollowDatabase W)
  | .follow o => db.follow o
  | .reblog o => db.reblog fc maxFeedSize o
  | .deleteReblog o => db.deleteReblog fc o

end FollowDatabase

end Golos
