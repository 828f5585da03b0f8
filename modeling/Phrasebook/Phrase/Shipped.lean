import Phrasebook.Phrase.Table
import Phrasebook.Text.Blank
/-!
# The shipped phrase tables

Two tables from English to Japanese come with the program: one for the headings and section phrases
of a documentation page, one for the terms of its vocabulary.

## Main definitions

* `ShippedTable`: which of the two, with its `name`.
* `ShippedTable.ofName?`: the table that a user names, blanks around the name and letter case aside.
* `PhraseTable.shipped`: the table itself.
-/

namespace Phrasebook

/-- Which shipped phrase table to start from. -/
inductive ShippedTable where
  /-- Headings, section phrases and common words. -/
  | headings
  /-- A dictionary of terms for titles and product vocabulary. -/
  | glossary
  deriving DecidableEq, Repr, Inhabited

namespace ShippedTable

/-- The name by which a configuration and a command line ask for the table. -/
def name : ShippedTable → Text
  | headings => "headings".toList
  | glossary => "glossary".toList

/-- The name by which reports show the table. -/
def title : ShippedTable → Text
  | headings => "Headings".toList
  | glossary => "Glossary".toList

/-- The table with exactly this name. -/
def ofExactName? (name : Text) : Option ShippedTable :=
  [headings, glossary].find? fun table => table.name = name

/-- The table that a text names, whatever the case of its letters and whatever blanks stand at its
ends. No letter outside ASCII has a lower case form that occurs in a name, so that lowering the
ASCII letters is enough. -/
def ofName? (text : Text) : Option ShippedTable :=
  ofExactName? (text.trimmed.map Char.toLower)

/-- Sources and targets of the headings table. -/
def headingPairs : List (String × String) := [
  -- Headers and titles
  ("# Introduction to bytekin", "# bytekinのイントロダクション"),
  ("# Getting Started with bytekin", "# bytekinを使い始める"),
  ("# Installation Guide", "# インストールガイド"),
  ("# Your First Transformation", "# 最初の変換"),
  ("# Core Concepts", "# コアコンセプト"),
  ("# Bytecode Basics", "# バイトコード基礎"),
  ("# How bytekin Works", "# bytekinの仕組み"),
  ("# Features Overview", "# 機能概要"),
  ("# Inject Transformation", "# インジェクション変換"),
  ("# Invoke Transformation", "# インボケーション変換"),
  ("# Redirect Transformation", "# リダイレクト変換"),
  ("# Constant Modification", "# 定数修正"),
  ("# Variable Modification", "# 変数修正"),
  ("# Advanced Usage", "# 高度な使用法"),
  ("# Mappings", "# マッピング"),
  ("# Builder Pattern", "# ビルダーパターン"),
  ("# Custom Transformers", "# カスタムトランスフォーマー"),
  ("# API Reference", "# APIリファレンス"),
  ("# Annotations Reference", "# アノテーション リファレンス"),
  ("# Classes and Interfaces", "# クラスとインターフェース"),
  ("# Examples", "# 例"),
  ("# Examples - Basic Usage", "# 例 - 基本的な使用法"),
  ("# Advanced Examples", "# 高度な例"),
  ("# Best Practices", "# ベストプラクティス"),
  ("# FAQ - Frequently Asked Questions", "# FAQ - よくある質問"),
  ("# Troubleshooting Guide", "# トラブルシューティングガイド"),
  -- Section phrases
  ("## Prerequisites", "## 前提条件"),
  ("## Installation", "## インストール"),
  ("## Overview", "## 概要"),
  ("## Key Features", "## 主な機能"),
  ("## Use Cases", "## ユースケース"),
  ("## Next Steps", "## 次のステップ"),
  ("## What is", "## とは"),
  ("## How it works", "## 仕組み"),
  ("## Example", "## 例"),
  ("## Parameters", "## パラメータ"),
  ("## Scope", "## スコープ"),
  -- Common words
  ("bytekin", "bytekin"),
  ("bytecode", "バイトコード"),
  ("transformation", "変換"),
  ("injection", "インジェクション"),
  ("invocation", "インボケーション"),
  ("Java", "Java"),
  ("JVM", "JVM")]

/-- Sources and targets of the glossary. -/
def glossaryPairs : List (String × String) := [
  ("Introduction", "イントロダクション"),
  ("Getting Started", "はじめに"),
  ("Installation", "インストール"),
  ("Core Concepts", "コアコンセプト"),
  ("Bytecode Basics", "バイトコード基礎"),
  ("How bytekin Works", "bytekinの仕組み"),
  ("Features", "機能"),
  ("Inject", "インジェクション"),
  ("Invoke", "インボケーション"),
  ("Redirect", "リダイレクト"),
  ("Constant Modification", "定数修正"),
  ("Variable Modification", "変数修正"),
  ("Advanced Usage", "高度な使用法"),
  ("Mappings", "マッピング"),
  ("Builder Pattern", "ビルダーパターン"),
  ("Custom Transformers", "カスタムトランスフォーマー"),
  ("API Reference", "APIリファレンス"),
  ("Annotations", "アノテーション"),
  ("Classes and Interfaces", "クラスとインターフェース"),
  ("Examples", "例"),
  ("Best Practices", "ベストプラクティス"),
  ("FAQ", "FAQ"),
  ("Troubleshooting", "トラブルシューティング"),
  ("bytekin", "bytekin"),
  ("bytecode", "バイトコード"),
  ("transformation", "変換"),
  ("Java", "Java"),
  ("JVM", "JVM")]

/-- Sources and targets of the table, as they are listed. -/
def pairs : ShippedTable → List (String × String)
  | headings => headingPairs
  | glossary => glossaryPairs

/-- The phrases of the table, as they are listed. -/
def listing (table : ShippedTable) : List (Phrase Char) :=
  table.pairs.map fun (source, target) => ⟨source.toList, target.toList⟩

end ShippedTable

/-- The phrase table that comes with the program under this name. -/
def PhraseTable.shipped (table : ShippedTable) : PhraseTable :=
  PhraseTable.sorted table.listing

end Phrasebook
